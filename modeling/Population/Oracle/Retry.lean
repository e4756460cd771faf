import Population.Oracle.Basic

/-!
# Repeating queries

An oracle that could not decide is asked again, up to a number of attempts, with a wait between
attempts that doubles each time. Decided answers and other errors are returned at once.
-/

namespace Population

/-- What an oracle needs from its surroundings `σ`: the oracle itself, whether the run may go on,
waiting, and logging. -/
structure Surroundings (σ : Type) where
  name : Text
  ask : σ → Reply × σ
  poll : σ → Option σ
  /-- Waits; the flag tells whether the wait ended before the run was cancelled. -/
  wait : Duration → σ → Bool × σ
  log : LogRecord → σ → σ

namespace Retry

def failedAttempt (name : Text) (attempt max : Nat) (wait : Duration) (e : OracleError) :
    LogRecord where
  level := .warn
  message := "oracle unavailable, retrying"
  attributes :=
    [("oracle", .text name), ("attempt", .int attempt), ("max", .int max),
      ("backoff", .duration wait), ("error", .text e.message)]

def answeredAfter (name : Text) (attempts : Nat) : LogRecord where
  level := .info
  message := "oracle answered after retries"
  attributes := [("oracle", .text name), ("attempts", .int attempts)]

/-- The attempts from number `attempt` on; `left` are allowed after this one and `last` is the
answer of the one before. -/
def attemptFrom {σ : Type} (o : Surroundings σ) (max : Nat) :
    (left : Nat) → (attempt : Nat) → (wait : Duration) → (last : Option Answer) → σ → Reply × σ
  | left, attempt, wait, last, s =>
    match o.poll s with
    | none => (⟨last, some .cancelled⟩, s)
    | some s =>
      let (reply, s) := o.ask s
      match reply.error with
      | none => (reply, if 1 < attempt then o.log (answeredAfter o.name attempt) s else s)
      | some e =>
        if !e.isUnavailable then (reply, s)
        else match left with
          | 0 => (reply, s)
          | left + 1 =>
            let s := o.log (failedAttempt o.name attempt max wait e) s
            if 0 < wait then
              match o.wait wait s with
              | (false, s) => (⟨reply.answer, some .cancelled⟩, s)
              | (true, s) => attemptFrom o max left (attempt + 1) (wait * 2) reply.answer s
            else attemptFrom o max left (attempt + 1) wait reply.answer s
termination_by structural left => left

/-- Asks up to `maxAttempts` times, at least once. -/
def ask {σ : Type} (o : Surroundings σ) (maxAttempts : Int) (backoff : Duration) (s : σ) :
    Reply × σ :=
  let attempts := (max maxAttempts 1).toNat
  attemptFrom o attempts (attempts - 1) 1 backoff none s

end Retry

end Population
