import CliffordT.Search.Candidate

/-!
# One pass of a search

A pass tests matrices one after the other with the three completions and offers the diagonal ones to its sink. It
counts its work, reports progress at fixed intervals, and asks at fixed intervals whether it has been interrupted. The
answers to those questions come from outside: `poll k` is the answer to the `k`-th one.
-/

namespace CliffordT.Search

/-- Why a search was told to stop. -/
inductive Interrupt where
  | canceled
  | deadlineExceeded
deriving DecidableEq, Repr

/-- The wording of an interrupt. -/
def Interrupt.message : Interrupt → String
  | .canceled => "context canceled"
  | .deadlineExceeded => "context deadline exceeded"

/-- The two passes. -/
inductive Stage where
  | exhaustive
  | meetInTheMiddle
deriving DecidableEq, Repr

/-- The name of a stage. -/
def Stage.name : Stage → String
  | .exhaustive => "exhaustive"
  | .meetInTheMiddle => "meet-in-the-middle"

/-- The work of one pass. -/
structure Stats where
  stage : Stage
  /-- entries of the buffer, or first halves, that were begun -/
  visited : Nat
  /-- products of two halves -/
  products : Nat
  /-- matrices tested for being diagonal -/
  tested : Nat
  /-- candidates offered -/
  hits : Nat
  /-- whether the sink was complete at the end -/
  complete : Bool
deriving DecidableEq, Repr

/-- No work yet. -/
def Stats.start (stage : Stage) : Stats := ⟨stage, 0, 0, 0, 0, false⟩

/-- How far a pass has come. -/
structure Progress where
  stats : Stats
  done : Nat
  total : Nat
deriving DecidableEq, Repr

/-- An option of a search that makes no sense. -/
inductive OptionError where
  | epsilon
  | interval
deriving DecidableEq, Repr

/-- The wording of an option error. -/
def OptionError.message : OptionError → String
  | .epsilon => "search: WithEpsilon: eps must be finite and > 0"
  | .interval => "search: step interval must be > 0"

/-- Intervals of a pass, and whether it insists on a full buffer. -/
structure Options where
  /-- steps between progress reports -/
  progressEvery : Nat
  /-- steps between polls -/
  checkEvery : Nat
  requireFilled : Bool
deriving DecidableEq, Repr

namespace Options

/-- A report every `2 ^ 20` steps and a poll every `2 ^ 12`. -/
def default : Options := ⟨1048576, 4096, false⟩

/-- Report at another interval. -/
def withProgressEvery (o : Options) (n : Int) : Except OptionError Options :=
  if n ≤ 0 then .error .interval else .ok { o with progressEvery := n.toNat }

/-- Poll at another interval. -/
def withCheckEvery (o : Options) (n : Int) : Except OptionError Options :=
  if n ≤ 0 then .error .interval else .ok { o with checkEvery := n.toNat }

end Options

/-- What a pass is given: how matrices are measured, where candidates go, its intervals, what becomes of a progress
report, and the answers to its polls. -/
structure Setup (M A E σ ε : Type) where
  probe : Probe M A E
  sink : Sink (Candidate M A E) σ
  options : Options
  observe : Option (Progress → σ → ε)
  poll : Nat → Option Interrupt

/-- The state of a pass. -/
structure Pass (σ ε : Type) where
  stats : Stats
  sink : σ
  /-- what became of the progress reports -/
  events : Array ε
  /-- how many polls were made -/
  polls : Nat
  interrupt : Option Interrupt

namespace Pass

variable {M A E σ ε : Type}

/-- A pass before its first step. -/
def start (stage : Stage) (sink : σ) (polls : Nat) : Pass σ ε := ⟨Stats.start stage, sink, #[], polls, none⟩

/-- Report progress. -/
def report (x : Setup M A E σ ε) (done total : Nat) (p : Pass σ ε) : Pass σ ε :=
  match x.observe with
  | none => p
  | some f => { p with events := p.events.push (f ⟨p.stats, done, total⟩ p.sink) }

/-- Report progress if step `n` is due for it. -/
def reportDue (x : Setup M A E σ ε) (n total : Nat) (p : Pass σ ε) : Pass σ ε :=
  if n % x.options.progressEvery = 0 then p.report x n total else p

/-- Poll if step `n` is due for it. -/
def pollDue (x : Setup M A E σ ε) (n : Nat) (p : Pass σ ε) : Pass σ ε :=
  if n % x.options.checkEvery = 0 then { p with interrupt := x.poll p.polls, polls := p.polls + 1 } else p

/-- Offer a candidate. -/
def offer (x : Setup M A E σ ε) (c : Candidate M A E) (p : Pass σ ε) : Pass σ ε :=
  let sink := x.sink.offer p.sink c
  { p with
    stats := { p.stats with hits := p.stats.hits + 1, complete := x.sink.complete sink }
    sink := sink }

/-- Count a test. -/
def countTest (p : Pass σ ε) : Pass σ ε := { p with stats := { p.stats with tested := p.stats.tested + 1 } }

variable [GateAlgebra M]

/-- Test a matrix with the completions in turn, offering the diagonal products, until the sink is complete. -/
def tryCompletions (x : Setup M A E σ ε) (source : Source) (m : M) : List (Completion M) → Pass σ ε → Pass σ ε
  | [], p => p
  | c :: cs, p =>
    let p := p.countTest
    let cm := c.matrix * m
    if x.probe.isDiagonal cm then
      let p := p.offer x ⟨x.probe.phase cm, source.word c, cm, x.probe.error cm⟩
      if p.stats.complete then p else tryCompletions x source m cs p
    else tryCompletions x source m cs p

end Pass

end CliffordT.Search
