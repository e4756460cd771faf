import Population.Encoding.Basic
import Population.Job.Basic
import Population.Oracle.Basic

/-!
# Verdicts

The questions about the hazards of an encoding are answered one by one, and their answers are
folded into a verdict: a reachable hazard makes the protocol unsafe; short of that, a question
without an answer makes the result inconclusive.
-/

namespace Population

/-- The outcome of an analysis. -/
inductive Verdict where
  | safe
  | violated
  /-- Some question could not be decided and no hazard was found reachable. -/
  | inconclusive
  deriving DecidableEq

namespace Verdict

def text : Verdict → Text
  | safe => "safe"
  | violated => "unsafe"
  | inconclusive => "inconclusive"

/-- The kind of update that announces a verdict. -/
def kind : Verdict → Kind
  | safe => .success
  | violated => .error
  | inconclusive => .warning

/-- Folds the statuses that follow a verdict so far. -/
def foldFrom : Verdict → List Finding.Status → Verdict
  | v, [] => v
  | v, s :: rest =>
    match s with
    | .reachable => violated
    | .unavailable => foldFrom inconclusive rest
    | _ => foldFrom v rest

def fold (statuses : List Finding.Status) : Verdict :=
  foldFrom safe statuses

end Verdict

/-- What asking about one hazard brought. The default stands for a question that was never
answered. -/
structure Inquiry where
  finding : Finding := {}
  output : List Text := []
  error : Option OracleError := none
  deriving DecidableEq

namespace Inquiry

/-- The error text of a finding; whatever the error, the oracle was of no use. -/
def errorText (e : OracleError) : Text :=
  if e.isUnavailable then e.message
  else Text.cat [OracleError.heading, ": ", e.message]

/-- What an oracle's reply says about a hazard; nothing when there is neither an answer nor an
error. -/
def ofReply (h : Hazard) (r : Reply) : Option Inquiry :=
  let finding : Finding := { configuration := h.weights.text, transitions := h.transitions }
  let output := (r.answer.map (·.output)).getD []
  match r.error, r.answer with
  | some e, _ =>
    some { finding := { finding with status := .unavailable, error := errorText e }, output
           error := some e }
  | none, some a =>
    if a.reachable then
      some { finding := { finding with status := .reachable, witness := a.witness }, output }
    else some { finding := { finding with status := .unreachable }, output }
  | none, none => none

def describe (h : Hazard) (i : Inquiry) : Kind × Text :=
  let what : Text := "unsafe configuration " ++ h.weights.text
  match i.finding.status with
  | .reachable =>
    let witness : Text :=
      if i.finding.witness.isEmpty then []
      else "; witness: " ++ Text.join " " i.finding.witness
    (.error, Text.cat
      [what, " is reachable (enables ", Text.join ", " h.transitions, ")", witness])
  | .unreachable => (.info, what ++ " is unreachable")
  | _ =>
    let why : Text := (i.error.map OracleError.message).getD "<nil>"
    (.warning, Text.cat ["no verdict for ", what, ": ", why])

end Inquiry

end Population
