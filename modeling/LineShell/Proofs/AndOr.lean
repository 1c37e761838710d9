import LineShell.Proofs.History

namespace LineShell

/-! Lists of statements as trees.

Statements that `&&` and `||` join make a tree that leans to the left; `;`, or no
operator at all, ends the tree, and the next statement begins another. A tree is
evaluated from its leaves, and its status decides whether what is joined to it
runs. Running a list of statements comes to the same as evaluating its trees one
after the other.
-/

/-- Statements joined by `&&` and `||`. -/
inductive AndOr where
  | single (statement : Statement)
  | and (left : AndOr) (right : Statement)
  | or (left : AndOr) (right : Statement)

namespace AndOr

/-- The tree with one more statement, if the operator before it is `&&` or `||`. -/
def join? (left : AndOr) (gate : Option Operator) (right : Statement) : Option AndOr :=
  match gate with
  | some .and => some (.and left right)
  | some .or => some (.or left right)
  | some .sequence | none => none

/-- The trees of the statements that follow those of `left`. -/
def groupsAfter (left : AndOr) (gate : Option Operator) : List Statement → List AndOr
  | [] => [left]
  | statement :: statements =>
      match left.join? gate statement with
      | some tree => groupsAfter tree statement.next statements
      | none => left :: groupsAfter (.single statement) statement.next statements

/-- The trees of statements. A statement is the last one of its tree if `;` or
nothing stands behind it. -/
def groups : List Statement → List AndOr
  | [] => []
  | statement :: statements => groupsAfter (.single statement) statement.next statements

end AndOr

/-- What came of an evaluation: the statements that ran with what each asked for,
the status of the whole unless one asked to exit, and the effects. -/
structure Evaluation where
  ran : List (Statement × Control)
  result : Control
  effects : Effects

namespace Evaluation

def andThen (first : Evaluation) (second : Effects → Evaluation) : Evaluation :=
  { second first.effects with ran := first.ran ++ (second first.effects).ran }

/-- The status of the last statement that finished. -/
def lastFinished (default : Status) : List (Statement × Control) → Status
  | [] => default
  | (_, .status status) :: ran => lastFinished status ran
  | (_, .exit) :: ran => lastFinished default ran

def outcome (evaluation : Evaluation) (default : Status) : Outcome :=
  match evaluation.result with
  | .status status => .completed status
  | .exit => .exitRequested (lastFinished default evaluation.ran)

end Evaluation

namespace Tools

variable (tools : Tools)

def evaluateStatement (statement : Statement) (effects : Effects) : Evaluation :=
  let (control, effects) := tools.act statement effects
  ⟨[(statement, control)], control, effects⟩

/-- `left && right` runs `right` if `left` has the status 0, and `left || right`
if it has another. -/
def evaluateTree : AndOr → Effects → Evaluation
  | .single statement, effects => tools.evaluateStatement statement effects
  | .and left right, effects =>
      let first := evaluateTree left effects
      match first.result with
      | .status status =>
          if status = 0 then first.andThen (tools.evaluateStatement right) else first
      | .exit => first
  | .or left right, effects =>
      let first := evaluateTree left effects
      match first.result with
      | .status status =>
          if status = 0 then first else first.andThen (tools.evaluateStatement right)
      | .exit => first

/-- Evaluates trees behind one with a status. Nothing is evaluated after a
request to exit. -/
def evaluateTrees (status : Status) : List AndOr → Effects → Evaluation
  | [], effects => ⟨[], .status status, effects⟩
  | tree :: trees, effects =>
      let first := tools.evaluateTree tree effects
      match first.result with
      | .status status => first.andThen (evaluateTrees status trees)
      | .exit => first

def evaluate (statements : List Statement) (effects : Effects) : Evaluation :=
  tools.evaluateTrees 0 (AndOr.groups statements) effects

end Tools

/-- The statement that the event ran, with what it asked for. -/
def Event.run? : Event → Option (Statement × Control)
  | .ran statement control => some (statement, control)
  | .skipped _ => none

namespace Evaluation

theorem lastFinished_append (default : Status) (ran ran' : List (Statement × Control)) :
    lastFinished default (ran ++ ran') = lastFinished (lastFinished default ran) ran' := by
  fun_induction lastFinished default ran with
  | case1 => rfl
  | case2 _ _ _ _ ih | case3 _ _ _ ih => simpa [lastFinished] using ih

theorem outcome_andThen (first : Evaluation) (second : Effects → Evaluation)
    (default : Status) :
    (first.andThen second).outcome default =
      (second first.effects).outcome (lastFinished default first.ran) := by
  simp only [outcome, andThen, lastFinished_append]

end Evaluation

namespace Tools

open Evaluation (lastFinished)

variable {tools : Tools} {left tree : AndOr} {gate : Option Operator}
  {statement : Statement} {before : Effects} {last : Status}

theorem opens_of_join?_eq_none (apart : left.join? gate statement = none) :
    opens gate last = true := by
  match gate with
  | none | some .sequence => rfl
  | some .and | some .or => simp [AndOr.join?] at apart

/-- Joined to a tree with a status, a statement runs just when it would behind a
statement with that status. -/
theorem evaluateTree_join? (joined : left.join? gate statement = some tree)
    (result : (tools.evaluateTree left before).result = .status last) :
    tools.evaluateTree tree before =
      if opens gate last then
        (tools.evaluateTree left before).andThen (tools.evaluateStatement statement)
      else tools.evaluateTree left before := by
  match gate with
  | none | some .sequence => simp [AndOr.join?] at joined
  | some .and =>
      obtain rfl : AndOr.and left statement = tree := by simpa [AndOr.join?] using joined
      simp [evaluateTree, result, opens, Operator.opens]
  | some .or =>
      obtain rfl : AndOr.or left statement = tree := by simpa [AndOr.join?] using joined
      by_cases succeeded : last = 0 <;>
        simp [evaluateTree, result, opens, Operator.opens, succeeded]

/-- Nothing is joined to a tree after a request to exit. -/
theorem evaluateTree_join?_of_exit (joined : left.join? gate statement = some tree)
    (result : (tools.evaluateTree left before).result = .exit) :
    tools.evaluateTree tree before = tools.evaluateTree left before := by
  match gate with
  | none | some .sequence => simp [AndOr.join?] at joined
  | some .and =>
      obtain rfl : AndOr.and left statement = tree := by simpa [AndOr.join?] using joined
      simp [evaluateTree, result]
  | some .or =>
      obtain rfl : AndOr.or left statement = tree := by simpa [AndOr.join?] using joined
      simp [evaluateTree, result]

theorem evaluateTrees_of_exit (gate : Option Operator) (statements : List Statement)
    (status : Status)
    (result : (tools.evaluateTree left before).result = .exit) :
    tools.evaluateTrees status (left.groupsAfter gate statements) before =
      tools.evaluateTree left before := by
  induction statements generalizing left gate with
  | nil => simp [AndOr.groupsAfter, evaluateTrees, result]
  | cons statement statements ih =>
      unfold AndOr.groupsAfter
      cases joined : left.join? gate statement with
      | none => simp [evaluateTrees, result]
      | some tree =>
          have same := evaluateTree_join?_of_exit joined result
          rw [← same] at result ⊢
          exact ih statement.next result

/-- A tree has been evaluated as far as an execution has come: it has the status
of the last statement that ran, and the effects are the same. -/
structure PartWay (tools : Tools) (tree : AndOr) (before : Effects) (last : Status)
    (journal : Journal) : Prop where
  result : (tools.evaluateTree tree before).result = .status last
  effects : (tools.evaluateTree tree before).effects = journal.effects
  finished : ∀ default, lastFinished default (tools.evaluateTree tree before).ran = last

variable {journal after : Journal} {control : Control} {statements : List Statement}

theorem evaluateStatement_of_run (same : before = journal.effects)
    (run : tools.runStatement statement (logRunning statement journal) = (control, after)) :
    tools.evaluateStatement statement before =
      ⟨[(statement, control)], control, after.effects⟩ := by
  have acted := act_of_run tools run
  rw [logRunning, Journal.effects_log, ← same] at acted
  simp only [evaluateStatement, acted]

namespace PartWay

theorem andThen (partWay : PartWay tools left before last journal) (trees : List AndOr)
    (status : Status) :
    tools.evaluateTrees status (left :: trees) before =
      (tools.evaluateTree left before).andThen (tools.evaluateTrees last trees) := by
  simp [evaluateTrees, partWay.result]

theorem single {status : Status}
    (evaluated : tools.evaluateStatement statement before =
      ⟨[(statement, .status status)], .status status, after.effects⟩) :
    PartWay tools (.single statement) before status after := by
  constructor <;> simp [evaluateTree, evaluated, lastFinished]

theorem evaluateTree_of_opens (partWay : PartWay tools left before last journal)
    (joined : left.join? gate statement = some tree) (opened : opens gate last = true) :
    tools.evaluateTree tree before =
      (tools.evaluateTree left before).andThen (tools.evaluateStatement statement) := by
  rw [evaluateTree_join? joined partWay.result, if_pos opened]

theorem join {status : Status} (partWay : PartWay tools left before last journal)
    (joined : left.join? gate statement = some tree) (opened : opens gate last = true)
    (evaluated : tools.evaluateStatement statement (tools.evaluateTree left before).effects =
      ⟨[(statement, .status status)], .status status, after.effects⟩) :
    PartWay tools tree before status after := by
  have whole := partWay.evaluateTree_of_opens joined opened
  constructor <;>
    simp [whole, Evaluation.andThen, evaluated, Evaluation.lastFinished_append, lastFinished]

theorem skip (partWay : PartWay tools left before last journal)
    (joined : left.join? gate statement = some tree) (shut : opens gate last = false) :
    tools.evaluateTree tree before = tools.evaluateTree left before ∧
      PartWay tools tree before last (logSkipped statement journal) := by
  have whole := evaluateTree_join? joined partWay.result
  rw [if_neg (by simp [shut])] at whole
  refine ⟨whole, ?_, ?_, ?_⟩ <;> rw [whole]
  · exact partWay.result
  · exact partWay.effects
  · exact partWay.finished

end PartWay

/-- An evaluation runs some statements and then what the events ran, and it ends
as the execution does. -/
structure Follows (whole : Evaluation) (ran : List (Statement × Control)) (default : Status)
    (events : List Event) (result : Outcome × Journal) : Prop where
  ran : whole.ran = ran ++ events.filterMap Event.run?
  outcome : whole.outcome default = result.1
  effects : whole.effects = result.2.effects

theorem Follows.andThen {first : Evaluation} {second : Effects → Evaluation} {default : Status}
    {events : List Event} {result : Outcome × Journal}
    (follows : Follows (second first.effects) [] last events result)
    (finished : lastFinished default first.ran = last) :
    Follows (first.andThen second) first.ran default events result where
  ran := by rw [Evaluation.andThen, follows.ran, List.nil_append]
  outcome := by rw [Evaluation.outcome_andThen, finished, follows.outcome]
  effects := follows.effects

/-- The next statement is joined to the tree, or the tree ends and the statement
begins another. -/
theorem PartWay.follows_cons (partWay : PartWay tools left before last journal)
    {events : List Event} {result : Outcome × Journal} {status default : Status}
    (fresh : Follows (tools.evaluateTrees last (AndOr.groups (statement :: statements))
      journal.effects) [] last events result)
    (together : ∀ tree, left.join? gate statement = some tree →
      Follows (tools.evaluateTrees status (tree.groupsAfter statement.next statements) before)
        (tools.evaluateTree left before).ran default events result) :
    Follows (tools.evaluateTrees status (left.groupsAfter gate (statement :: statements)) before)
      (tools.evaluateTree left before).ran default events result := by
  rw [AndOr.groupsAfter]
  split
  · next tree joined => exact together tree joined
  · rw [partWay.andThen]
    exact Follows.andThen (partWay.effects ▸ fresh) (partWay.finished default)

/-- An execution is followed by the trees of its statements, whether they begin a
new tree or go on with one that has been evaluated so far. -/
theorem follows_of_execution {events : List Event} {result : Outcome × Journal}
    (execution : Execution tools last gate statements journal events result) :
    (opens gate last = true →
      Follows (tools.evaluateTrees last (AndOr.groups statements) journal.effects) [] last
        events result) ∧
    ∀ {left before}, PartWay tools left before last journal → ∀ status default,
      Follows (tools.evaluateTrees status (left.groupsAfter gate statements) before)
        (tools.evaluateTree left before).ran default events result := by
  induction execution with
  | done =>
      refine ⟨fun _ => ⟨rfl, rfl, rfl⟩, fun partWay status default => ?_⟩
      rw [AndOr.groupsAfter, partWay.andThen]
      exact Follows.andThen ⟨rfl, rfl, partWay.effects⟩ (partWay.finished default)
  | @ran last gate statement statements journal ended after events result opened run onward ih =>
      have fresh : Follows (tools.evaluateTrees last (AndOr.groups (statement :: statements))
          journal.effects) [] last (.ran statement (.status ended) :: events) result := by
        have evaluated := evaluateStatement_of_run rfl run
        obtain ⟨ran, outcome, effects⟩ := ih.2 (.single evaluated) last last
        refine ⟨?_, outcome, effects⟩
        rw [AndOr.groups, ran, evaluateTree, evaluated]
        rfl
      refine ⟨fun _ => fresh, fun partWay status default =>
        partWay.follows_cons fresh fun tree joined => ?_⟩
      have evaluated := evaluateStatement_of_run partWay.effects run
      obtain ⟨ran, outcome, effects⟩ :=
        ih.2 (partWay.join joined opened evaluated) status default
      refine ⟨?_, outcome, effects⟩
      rw [ran, partWay.evaluateTree_of_opens joined opened]
      simp [Evaluation.andThen, evaluated, Event.run?]
  | @exited last gate statement statements journal after opened run =>
      have fresh : Follows (tools.evaluateTrees last (AndOr.groups (statement :: statements))
          journal.effects) [] last [.ran statement .exit] (.exitRequested last, after) := by
        have evaluated := evaluateStatement_of_run rfl run
        have whole := evaluateTrees_of_exit statement.next statements last
          (show (tools.evaluateTree (.single statement) journal.effects).result = .exit by
            rw [evaluateTree, evaluated])
        rw [AndOr.groups, whole, evaluateTree, evaluated]
        exact ⟨rfl, rfl, rfl⟩
      refine ⟨fun _ => fresh, fun {left before} partWay status default =>
        partWay.follows_cons fresh fun tree joined => ?_⟩
      have evaluated := evaluateStatement_of_run partWay.effects run
      have whole := partWay.evaluateTree_of_opens joined opened
      have exits : (tools.evaluateTree tree before).result = .exit := by
        rw [whole, Evaluation.andThen, evaluated]
      rw [evaluateTrees_of_exit statement.next statements status exits, whole]
      refine Follows.andThen ?_ (partWay.finished default)
      rw [evaluated]
      exact ⟨rfl, rfl, rfl⟩
  | @skipped last gate statement statements journal events result shut onward ih =>
      refine ⟨fun opened => by simp [opened] at shut, fun partWay status default => ?_⟩
      rw [AndOr.groupsAfter]
      split
      · next tree joined =>
          obtain ⟨same, partWay⟩ := partWay.skip joined shut
          obtain ⟨ran, outcome, effects⟩ := ih.2 partWay status default
          exact ⟨by rw [ran, same]; rfl, outcome, effects⟩
      · next apart => simp [opens_of_join?_eq_none apart] at shut

end Tools

end LineShell
