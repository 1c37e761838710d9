import LineShell.CommandLine
import LineShell.Proofs.Adding
import LineShell.Proofs.Cutting
import LineShell.Proofs.Decoding
import LineShell.Proofs.History
import LineShell.Proofs.Pointing

namespace LineShell

/-! Serving the lines of an input.

The lines are run in order, each once and each as it would be by itself if git had had the
calls that the earlier ones made. About a line that is refused it is said why, and where. That
goes on until a line asks to exit, a line is no text, or there are no more. What is said and
called in all is what comes of the lines, one after the other, behind the one question that
opens the shell.
-/

open Journal (Adds)
open Statement (ofTokens)
open Token (scan)

/-- What is said about a line that is refused: the reason, and below it what is wrong between up
to 40 characters before it and up to 41 behind it, with carets under it. -/
inductive Complaint (line : Text) (defect : Defect) : Text → Prop where
  | intro {reason left before wrong after right : Text} (worded : defect.Worded reason)
      (whole : line = left ++ before ++ (wrong ++ (after ++ right))) (something : wrong ≠ [])
      (start : (left ++ before).byteSize = defect.span.start)
      (stop : (left ++ before).byteSize + wrong.byteSize = defect.span.stop)
      (shown : before.length = min 40 (left ++ before).length)
      (shown' : after.length = min 41 (after ++ right).length) :
      Complaint line defect ("gitsh: ".toList ++ reason ++ ['\n'] ++
        (before ++ (wrong ++ after) ++ '\n' ::
          (List.replicate before.length ' ' ++ List.replicate wrong.length '^')) ++ ['\n'])

/-- The line is divided around what is wrong, and either side is divided again where it goes on
without being shown. -/
theorem complaint_refusal {line : Text} {defect : Defect}
    (refused : ofTokens (scan line) = .error defect) :
    Complaint line defect (Shell.refusal line defect) := by
  obtain ⟨cursor, member, blamed⟩ := exists_blamed refused
  have among := Cursor.mem_iff_exists_token.mpr ⟨cursor, member, rfl⟩
  obtain ⟨something, left, right, whole, start, stop⟩ := (layout_scan line).exists_place among
  have snippet := (Span.parts_of_whole whole start stop).snippet_eq 40
  rw [← blamed.span_eq] at start stop snippet
  rw [Nat.max_eq_right (List.length_pos_iff.mpr something)] at snippet
  obtain ⟨far, before, rfl, near⟩ : ∃ far before, left = far ++ before ∧
      left.drop (left.length - 40) = before :=
    ⟨_, _, (List.take_append_drop _ _).symm, rfl⟩
  obtain ⟨after, beyond, rfl, near'⟩ : ∃ after beyond, right = after ++ beyond ∧
      right.take 41 = after :=
    ⟨_, _, (List.take_append_drop _ _).symm, rfl⟩
  rw [near, near'] at snippet
  have refusal : Shell.refusal line defect = "gitsh: ".toList ++ defect.message ++ ['\n'] ++
      defect.snippet line 40 ++ ['\n'] := rfl
  rw [refusal, Defect.snippet, snippet]
  have shown : before.length = min 40 (far ++ before).length := by
    have length := congrArg List.length near
    rw [List.length_drop] at length
    omega
  have shown' : after.length = min 41 (after ++ beyond).length := by
    rw [← List.length_take, near']
  exact .intro defect.worded_message whole something start stop shown shown'

/-- Nothing is said about a line that was accepted. -/
inductive Said (line : Text) : Outcome → Text → Prop where
  | refused {defect : Defect} {text : Text} (complaint : Complaint line defect text) :
      Said line (.rejected defect) text
  | completed (status : Status) : Said line (.completed status) []
  | exitRequested (status : Status) : Said line (.exitRequested status) []

namespace Shell

variable (shell : Shell)

theorem adds_runLine_of_refused {line : Text} {defect : Defect}
    (refused : ofTokens (scan line) = .error defect) (calls : List Git.Call) :
    Adds (shell.runLine line) calls (.rejected defect)
      (.ofRecord ⟨.info, .logging, (Outcome.rejected defect).summary line⟩) := by
  intro journal same roomy
  rw [← journal.log_eq_add, Tools.runLine, refused]

/-- Only a line with that defect is refused for it, and all that comes of it is a record. -/
theorem refused_of_rejected {line : Text} {calls : List Git.Call} {defect : Defect} {share : Share}
    (ran : Adds (shell.runLine line) calls (.rejected defect) share) :
    ofTokens (scan line) = .error defect ∧
      share.runs = [] ∧ share.out = [] ∧ share.err = [] := by
  cases read : ofTokens (scan line) with
  | ok statements =>
      -- What has been accepted ends in another way, on any journal.
      let journal : Journal := ⟨calls, [], .unbounded⟩
      have accepted : (shell.execute statements journal).1.defect? = none :=
        shell.executeAfter_defect? 0 none statements journal
      have outcome := congrArg Prod.fst (ran journal rfl ⟨rfl, rfl⟩)
      rw [shell.runLine_of_accepted read] at outcome
      rw [outcome] at accepted
      cases accepted
  | error other =>
      obtain ⟨same, rfl⟩ := ran.unique (shell.adds_runLine_of_refused read calls)
      obtain rfl := Outcome.rejected.inj same
      exact ⟨rfl, rfl, rfl, rfl⟩

theorem adds_answer_of_accepted {line : Text} {calls : List Git.Call} {outcome : Outcome}
    {share : Share} (accepted : outcome.defect? = none)
    (ran : Adds (shell.runLine line) calls outcome share) :
    Adds (shell.answer line) calls outcome (.total [share, .ofComplaint []]) := by
  intro journal same roomy
  rw [answer, ran journal same roomy]
  simp only [Journal.add_total_cons, Journal.add_total_nil, Journal.add_ofComplaint_nil]
  cases outcome with
  | rejected => cases accepted
  | completed | exitRequested => rfl

/-- An answer is what comes of running the line, and then what is said about it. -/
theorem exists_answer {line : Text} {calls : List Git.Call} {outcome : Outcome} {share : Share}
    (ran : Adds (shell.runLine line) calls outcome share) :
    ∃ said, Said line outcome said ∧
      Adds (shell.answer line) calls outcome (.total [share, .ofComplaint said]) := by
  cases outcome with
  | rejected defect =>
      obtain ⟨refused, -⟩ := shell.refused_of_rejected ran
      refine ⟨_, .refused (complaint_refusal refused), ?_⟩
      intro journal same roomy
      rw [answer, ran journal same roomy]
      simp only [Journal.add_total_cons, Journal.add_total_nil]
      rw [Journal.complain_eq_add (roomy.add share)]
  | completed status => exact ⟨[], .completed status, shell.adds_answer_of_accepted rfl ran⟩
  | exitRequested status =>
      exact ⟨[], .exitRequested status, shell.adds_answer_of_accepted rfl ran⟩

section

variable {line : Bytes} {text : Text} {outcome : Outcome} {last status : Status}
  {journal after : Journal}

/-! What the next line does to a dialogue that nobody sees. -/

theorem serveAfter_unreadable (last : Status) (garbled : Utf8.decode? line = none)
    (lines : List Bytes) :
    shell.serveAfter false last (line :: lines) journal = (unreadableStatus, journal.complain
      "gitsh: failed to read input: stream did not contain valid UTF-8\n".toList) := by
  simp only [serveAfter, greet, turn, garbled, Bool.false_eq_true, if_false]

theorem serveAfter_exit (last : Status) (read : Utf8.decode? line = some text)
    (done : shell.answer text journal = (.exitRequested status, after)) (lines : List Bytes) :
    shell.serveAfter false last (line :: lines) journal = (status, after) := by
  simp only [serveAfter, greet, turn, read, done, Outcome.isExit, Outcome.exitCode, if_true,
    Bool.false_eq_true, if_false]

theorem serveAfter_onward (last : Status) (read : Utf8.decode? line = some text)
    (done : shell.answer text journal = (outcome, after))
    (goesOn : ∀ status, outcome ≠ .exitRequested status) (lines : List Bytes) :
    shell.serveAfter false last (line :: lines) journal =
      shell.serveAfter false outcome.exitCode lines after := by
  have stays : outcome.isExit = false := by
    cases outcome with
    | exitRequested status => exact absurd rfl (goesOn status)
    | completed | rejected => rfl
  simp only [serveAfter, greet, turn, read, done, stays, Bool.false_eq_true, if_false]

end

end Shell

/-- A line with its outcome, with what running it added, and with what was said about it. -/
structure Exchange where
  line : Text
  outcome : Outcome
  share : Share
  said : Text

namespace Exchange

def total (exchange : Exchange) : Share := .total [exchange.share, .ofComplaint exchange.said]

theorem calls_total (exchange : Exchange) : exchange.total.calls = exchange.share.calls := by
  have silent : (Share.ofComplaint exchange.said).calls = [] := rfl
  simp [total, Share.calls_total, silent]

def GoesOn (exchange : Exchange) : Prop := ∀ status, exchange.outcome ≠ .exitRequested status

/-- The status after the exchanges that follow one with the status `last`. -/
def statusAfter (last : Status) (exchanges : List Exchange) : Status :=
  (exchanges.getLast?.map fun exchange => exchange.outcome.exitCode).getD last

/-- Why no line is run after the exchanges, given the lines that are left; with the status of
the whole, and with what is said in the end. -/
inductive Stop (last : Status) : List Exchange → List Bytes → Status → Text → Prop where
  | ended {exchanges : List Exchange} (onward : ∀ exchange ∈ exchanges, exchange.GoesOn) :
      Stop last exchanges [] (statusAfter last exchanges) []
  | exit {front : List Exchange} {exchange : Exchange} {rest : List Bytes} {status : Status}
      (onward : ∀ other ∈ front, other.GoesOn)
      (asked : exchange.outcome = .exitRequested status) :
      Stop last (front ++ [exchange]) rest status []
  | unreadable {exchanges : List Exchange} {line : Bytes} {rest : List Bytes}
      (onward : ∀ exchange ∈ exchanges, exchange.GoesOn)
      (garbled : ∀ text, Utf8.encode text ≠ line) :
      Stop last exchanges (line :: rest) 1
        "gitsh: failed to read input: stream did not contain valid UTF-8\n".toList

theorem Stop.cons {last status : Status} {exchange : Exchange} {more : List Exchange}
    {rest : List Bytes} {message : Text} (goesOn : exchange.GoesOn)
    (stop : Stop exchange.outcome.exitCode more rest status message) :
    Stop last (exchange :: more) rest status message := by
  cases stop with
  | ended onward =>
      have same : statusAfter exchange.outcome.exitCode more =
          statusAfter last (exchange :: more) := by
        cases more <;> simp [statusAfter, List.getLast?_cons]
      rw [same]
      exact .ended (List.forall_mem_cons.mpr ⟨goesOn, onward⟩)
  | exit onward asked =>
      rw [← List.cons_append]
      exact .exit (List.forall_mem_cons.mpr ⟨goesOn, onward⟩) asked
  | unreadable onward garbled =>
      exact .unreadable (List.forall_mem_cons.mpr ⟨goesOn, onward⟩) garbled

end Exchange

namespace Shell

open Exchange (Stop)

/-- The lines are run one after the other. Each finds git with the calls of those before it. -/
inductive Answered (shell : Shell) : List Git.Call → List Exchange → Prop where
  | nil {calls : List Git.Call} : Answered shell calls []
  | cons {calls : List Git.Call} {exchange : Exchange} {more : List Exchange}
      (ran : Adds (shell.runLine exchange.line) calls exchange.outcome exchange.share)
      (said : Said exchange.line exchange.outcome exchange.said)
      (onward : Answered shell (calls ++ exchange.share.calls) more) :
      Answered shell calls (exchange :: more)

theorem Answered.exists_adds {shell : Shell} {calls : List Git.Call} {exchanges : List Exchange}
    (answered : shell.Answered calls exchanges) :
    ∀ exchange ∈ exchanges, ∃ earlier,
      Adds (shell.runLine exchange.line) earlier exchange.outcome exchange.share := by
  induction answered with
  | nil => simp
  | cons ran _ _ ih => exact List.forall_mem_cons.mpr ⟨⟨_, ran⟩, ih⟩

theorem exists_served (shell : Shell) (standard : shell.registry = .standard) (last : Status)
    (lines : List Bytes) {journal : Journal} (roomy : journal.Roomy) :
    ∃ exchanges rest status message,
      lines = exchanges.map (fun exchange => Utf8.encode exchange.line) ++ rest ∧
      shell.Answered journal.calls exchanges ∧ Stop last exchanges rest status message ∧
      shell.serveAfter false last lines journal = (status,
        journal.add (.total (exchanges.map Exchange.total ++ [.ofComplaint message]))) := by
  -- By the lines that are left, with the status and the journal that the ones before them gave.
  induction lines generalizing last journal with
  | nil =>
      refine ⟨[], [], last, [], rfl, .nil, .ended (by simp), ?_⟩
      rw [List.map_nil, List.nil_append, Journal.add_total_cons, Journal.add_total_nil,
        Journal.add_ofComplaint_nil]
      rfl
  | cons line lines ih =>
      cases read : Utf8.decode? line with
      | none =>
          refine ⟨[], line :: lines, unreadableStatus, _, rfl, .nil,
            .unreadable (by simp) (Utf8.decode?_eq_none_iff.mp read), ?_⟩
          rw [shell.serveAfter_unreadable last read, Journal.complain_eq_add roomy]
          simp only [List.map_nil, List.nil_append, Journal.add_total_cons, Journal.add_total_nil]
      | some text =>
          obtain rfl := Utf8.decode?_eq_some_iff.mp read
          obtain ⟨outcome, share, ran⟩ := shell.exists_adds_runLine standard text journal.calls
          obtain ⟨said, reason, answered⟩ := shell.exists_answer ran
          let exchange : Exchange := ⟨text, outcome, share, said⟩
          have done : shell.answer text journal = (outcome, journal.add exchange.total) :=
            answered journal rfl roomy
          by_cases exits : ∃ status, outcome = .exitRequested status
          · obtain ⟨status, rfl⟩ := exits
            refine ⟨[exchange], lines, status, [], rfl, .cons ran reason .nil,
              @Stop.exit last [] _ lines _ (by simp) rfl, ?_⟩
            rw [shell.serveAfter_exit last read done]
            simp only [List.map_cons, List.map_nil, List.singleton_append,
              Journal.add_total_cons, Journal.add_total_nil, Journal.add_ofComplaint_nil]
          · have goesOn : exchange.GoesOn := fun status same => exits ⟨status, same⟩
            obtain ⟨exchanges, rest, status, message, rfl, onward, stop, served⟩ :=
              ih outcome.exitCode (roomy.add exchange.total)
            have calls : (journal.add exchange.total).calls = journal.calls ++ share.calls :=
              congrArg (journal.calls ++ ·) exchange.calls_total
            rw [calls] at onward
            refine ⟨exchange :: exchanges, rest, status, message, rfl,
              .cons ran reason onward, .cons goesOn stop, ?_⟩
            rw [shell.serveAfter_onward last read done goesOn, served, List.map_cons,
              List.cons_append, Journal.add_total_cons]

end Shell

namespace Catalog

/-- Git is asked once, and nothing is written. -/
theorem refresh_journal (git : Git.Backend) (fallback : List Text) (catalog : Catalog)
    (journal : Journal) :
    (refresh git fallback catalog journal).2.calls = journal.calls ++
        [.capture Git.listArguments (git.capture journal.calls Git.listArguments)] ∧
      (refresh git fallback catalog journal).2.streams = journal.streams := by
  unfold refresh chooseNames
  simp only
  split <;> exact ⟨rfl, rfl⟩

end Catalog

namespace CommandLine

/-- The shell of a program, and what opening it did. -/
def opened (surroundings : Surroundings) : Shell × Journal :=
  let (config, journal) :=
    configure surroundings.objection surroundings.overlay (.start .unbounded)
  openShell config surroundings.programs journal

/-- What is said about the user's file: nothing if there is none, if it is no text or if it is
understood, and otherwise what there is to object to it. -/
inductive Remark (surroundings : Surroundings) : Text → Prop where
  | unread (unread : surroundings.overlay.bind Utf8.decode? = none) : Remark surroundings []
  | understood {document : Text} {overlay : Overlay}
      (found : surroundings.overlay.bind Utf8.decode? = some document)
      (read : Overlay.read? document = some overlay) : Remark surroundings []
  | objection {document : Text}
      (found : surroundings.overlay.bind Utf8.decode? = some document)
      (unknown : Overlay.read? document = none) :
      Remark surroundings
        ("gitsh: config parse error: ".toList ++ surroundings.objection document ++ ['\n'])

theorem configure_journal (surroundings : Surroundings) : ∃ remark, Remark surroundings remark ∧
    (configure surroundings.objection surroundings.overlay (.start .unbounded)).2 =
      (Journal.start .unbounded).add (.ofComplaint remark) := by
  have silent : (Journal.start .unbounded).add (.ofComplaint []) = .start .unbounded :=
    Journal.add_ofComplaint_nil _
  unfold configure
  cases found : surroundings.overlay.bind Utf8.decode? with
  | none => exact ⟨[], .unread found, silent.symm⟩
  | some document =>
      cases read : Overlay.read? document with
      | some changes =>
          simp only [read]
          exact ⟨[], .understood found read, silent.symm⟩
      | none =>
          simp only [read]
          exact ⟨_, .objection found read, Journal.complain_eq_add ⟨rfl, rfl⟩ _⟩

/-- A shell is opened with one question, and nothing is said but about the user's file. -/
theorem opened_journal (surroundings : Surroundings) :
    (opened surroundings).1.registry = .standard ∧
    (∃ listing, (opened surroundings).2.calls = [.capture Git.listArguments listing]) ∧
    ∃ remark, Remark surroundings remark ∧
      (opened surroundings).2.streams = ⟨.unbounded, ⟨Utf8.encode remark, none⟩⟩ := by
  obtain ⟨remark, reason, configured⟩ := configure_journal surroundings
  have called : (configure surroundings.objection surroundings.overlay
      (.start .unbounded)).2.calls = [] := by
    rw [configured]
    rfl
  have written : (configure surroundings.objection surroundings.overlay
      (.start .unbounded)).2.streams = ⟨.unbounded, ⟨Utf8.encode remark, none⟩⟩ := by
    rw [configured]
    rfl
  unfold opened openShell Shell.load Catalog.load
  simp only [Catalog.refresh_journal, called, written]
  exact ⟨trivial, ⟨_, rfl⟩, remark, reason, rfl⟩

/-- What the program does in all when it is called without arguments. -/
structure Served (surroundings : Surroundings) (exchanges : List Exchange) (rest : List Bytes)
    (message : Text) : Prop where
  lines : Lines.Cut 0x0A 0x0D surroundings.input
    (exchanges.map (fun exchange => Utf8.encode exchange.line) ++ rest)
  answered : (opened surroundings).1.Answered (opened surroundings).2.calls exchanges
  rejected : ∀ exchange ∈ exchanges, ∀ defect, exchange.outcome = .rejected defect →
    exchange.share.runs = [] ∧ exchange.share.out = [] ∧ exchange.share.err = []
  stop : Exchange.Stop 0 exchanges rest (run (.ofArguments []) surroundings).status message
  calls : ∃ listing,
    (opened surroundings).2.calls = [.capture ["--list-cmds=main,nohelpers".toList] listing] ∧
    (run (.ofArguments []) surroundings).journal.calls =
      .capture ["--list-cmds=main,nohelpers".toList] listing ::
        exchanges.flatMap (·.share.calls)
  out : (run (.ofArguments []) surroundings).journal.streams.out.written =
    exchanges.flatMap (·.share.out)
  err : ∃ remark, Remark surroundings remark ∧
    (run (.ofArguments []) surroundings).journal.streams.err.written = Utf8.encode remark ++
      exchanges.flatMap (fun exchange => exchange.share.err ++ Utf8.encode exchange.said) ++
      Utf8.encode message

theorem lines_are_served_in_turn (surroundings : Surroundings)
    (unseen : surroundings.interactive = false) :
    ∃ exchanges rest message, Served surroundings exchanges rest message := by
  obtain ⟨standard, ⟨listing, asked⟩, remark, reason, streams⟩ := opened_journal surroundings
  have roomy : (opened surroundings).2.Roomy := by
    rw [Journal.Roomy, streams]
    exact ⟨rfl, rfl⟩
  obtain ⟨exchanges, rest, status, message, lines, answered, stop, served⟩ :=
    (opened surroundings).1.exists_served standard 0 (Shell.inputLines surroundings.input) roomy
  have report : ((run (.ofArguments []) surroundings).status,
      (run (.ofArguments []) surroundings).journal) =
      (opened surroundings).1.serve surroundings.interactive surroundings.input
        (opened surroundings).2 := rfl
  rw [Shell.serve, unseen, served] at report
  obtain ⟨rfl, journal⟩ := Prod.mk.inj report
  refine ⟨exchanges, rest, message, ?_⟩
  constructor
  case lines =>
    rw [← lines]
    exact Lines.cut_split surroundings.input
  case answered => exact answered
  case rejected =>
    intro exchange member defect rejected
    obtain ⟨earlier, ran⟩ := answered.exists_adds exchange member
    exact ((opened surroundings).1.refused_of_rejected (rejected ▸ ran)).2
  case stop => exact stop
  case calls =>
    refine ⟨listing, asked, ?_⟩
    have silent : (Share.ofComplaint message).calls = [] := rfl
    rw [journal, Journal.add, Share.calls_total, asked]
    simp [List.flatMap_append, List.flatMap_map, Exchange.calls_total, silent, Git.listArguments]
  case out =>
    rw [journal, Journal.add, streams]
    simp [Sink.join, Sink.unbounded, Share.total, List.flatMap_map, Exchange.total,
      Share.ofComplaint]
  case err =>
    refine ⟨remark, reason, ?_⟩
    rw [journal, Journal.add, streams]
    simp [Sink.join, Share.total, List.flatMap_map, Exchange.total, Share.ofComplaint]

/-- Git writes something to its output and as an error, and ends with status 3. The system refuses
to start it with the argument `gone`. -/
def gitEndingIn3 : Git.Program := fun _ arguments =>
  if arguments = ["gone".toList] then .error "Permission denied (os error 13)".toList
  else .ok ⟨[0x6F], [0x65, 0x0A], some 3⟩

/-- What is wrong with the user's file and with the first line is said, and that git could not be
started for the third. -/
theorem lines_behind_an_exit_are_left_alone :
    let surroundings : Surroundings := {
      home := []
      overlay := some (Utf8.encode "[git".toList)
      objection := fun _ => "unclosed table".toList
      interactive := false
      input := Utf8.encode "fetch 'a b' &&\nlog 'a b'\ngone\nlog || :exit\nlog".toList
      programs := fun _ => some gitEndingIn3 }
    let report := run (.ofArguments []) surroundings
    report.status = 3 ∧
    report.journal.calls.map Git.Call.arguments =
      [["--list-cmds=main,nohelpers"], ["log", "a b"], ["gone"], ["log"]].map
        (·.map String.toList) ∧
    report.journal.streams.out.written = [0x6F, 0x6F] ∧
    report.journal.streams.err.written = Utf8.encode ([
      "gitsh: config parse error: unclosed table",
      "gitsh: expected a command after `&&` at end of line", "fetch 'a b' &&", "            ^^", "e",
      "gitsh: failed to run git: Permission denied (os error 13)", "e"].flatMap
        fun text => text.toList ++ ['\n']) ∧
    ∃ exchanges rest message, Served surroundings exchanges rest message := by
  intro surroundings report
  exact ⟨by decide +kernel, by decide +kernel, by decide +kernel, by decide +kernel,
    lines_are_served_in_turn surroundings rfl⟩

end CommandLine

end LineShell
