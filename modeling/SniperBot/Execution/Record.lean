import SniperBot.Lib.MachineInt

/-!
# Execution records and their lifecycle

One record per execution intent: its state in the lifecycle of an attempt, the
identity of the transaction of the current attempt, and why the last one failed.
Timestamps are left out, since nothing but logs, metrics and listings reads them.
-/

namespace SniperBot.Execution

open Lib.MachineInt

inductive BotError where
  | notFound (message : String)
  | invalidArgument (message : String)
  deriving DecidableEq

inductive ExecutionState where
  | created
  | validated
  | submitted
  | pending
  | confirmed
  | failed
  | expired
  | reconciled
  deriving DecidableEq

namespace ExecutionState

def asStr : ExecutionState → String
  | created => "created"
  | validated => "validated"
  | submitted => "submitted"
  | pending => "pending"
  | confirmed => "confirmed"
  | failed => "failed"
  | expired => "expired"
  | reconciled => "reconciled"

def isTerminal : ExecutionState → Bool
  | reconciled => true
  | _ => false

def isSettled : ExecutionState → Bool
  | confirmed | failed | expired | reconciled => true
  | _ => false

/-- The legal moves. A second attempt is not one of them: `begin` re-arms. -/
def canTransitionTo : ExecutionState → ExecutionState → Bool
  | created, validated | created, failed | created, expired => true
  | validated, submitted | validated, confirmed | validated, failed | validated, expired => true
  | submitted, pending | submitted, confirmed | submitted, failed | submitted, expired
  | submitted, reconciled => true
  | pending, confirmed | pending, failed | pending, expired | pending, reconciled => true
  | confirmed, reconciled | failed, reconciled | expired, reconciled => true
  | _, _ => false

theorem canTransitionTo_reconciled (s : ExecutionState) :
    s.canTransitionTo reconciled = true ↔ s ≠ created ∧ s ≠ validated ∧ s ≠ reconciled := by
  cases s <;> decide

theorem eq_reconciled_of_confirmed {s : ExecutionState} (h : confirmed.canTransitionTo s = true) :
    s = reconciled := by
  cases s <;> first | rfl | exact absurd h (by decide)

theorem not_canTransitionTo_of_terminal {s : ExecutionState} (h : s.isTerminal = true)
    (t : ExecutionState) : s.canTransitionTo t = false := by
  cases s <;> first | exact absurd h (by decide) | rfl

end ExecutionState

inductive FailureClass where
  | simulationRejected
  | blockhashExpired
  | rejected
  | insufficientFunds
  | rateLimited
  | transportAmbiguous
  | confirmationTimeout
  | landedFailed
  | policyVeto
  | duplicate
  | internal
  deriving DecidableEq

/-- The state an attempt ends in for this failure. An ambiguous outcome never
ends an attempt. -/
def FailureClass.terminalState : FailureClass → ExecutionState
  | blockhashExpired => .expired
  | transportAmbiguous | confirmationTimeout => .pending
  | _ => .failed

theorem FailureClass.terminalState_not_landed (c : FailureClass) :
    c.terminalState ≠ .confirmed ∧ c.terminalState ≠ .reconciled := by
  cases c <;> decide

structure ExecutionIntent where
  intentId : String
  module : String
  label : String
  wallet : String
  symbol : String

structure ExecutionRecord where
  intentId : String
  module : String
  label : String
  wallet : String
  symbol : String
  state : ExecutionState
  attempts : UInt32
  signature : Option String
  blockhash : Option String
  lastValidBlockHeight : Option UInt64
  priorityFeeMicroLamports : UInt64
  failure : Option FailureClass
  error : Option String
  deriving DecidableEq

namespace ExecutionRecord

def new (intent : ExecutionIntent) : ExecutionRecord :=
  { intentId := intent.intentId, module := intent.module, label := intent.label,
    wallet := intent.wallet, symbol := intent.symbol, state := .created, attempts := 1,
    signature := none, blockhash := none, lastValidBlockHeight := none,
    priorityFeeMicroLamports := 0, failure := none, error := none }

variable (r : ExecutionRecord) (target : ExecutionState) (failure : Option (FailureClass × String))

def canRearm : Bool :=
  match r.state with
  | .failed | .expired => true
  | .reconciled => r.failure.isSome
  | _ => false

/-- The next attempt of the same intent. The fee of the last one is kept. -/
def rearm : ExecutionRecord :=
  { r with
    attempts := U32.saturatingAdd r.attempts 1, state := .created, failure := none, error := none,
    signature := none, blockhash := none, lastValidBlockHeight := none }

def attach (signature : String) (blockhash : Option String)
    (lastValidBlockHeight : Option UInt64) (priorityFeeMicroLamports : UInt64) : ExecutionRecord :=
  { r with
    signature := some signature, blockhash := blockhash,
    lastValidBlockHeight := lastValidBlockHeight,
    priorityFeeMicroLamports := priorityFeeMicroLamports }

def annotate (failure : FailureClass) (error : String) : ExecutionRecord :=
  { r with failure := some failure, error := some error }

/-- A legal move. A landed transaction must never look re-armable, so a move to
`confirmed` or `reconciled` without a failure clears an earlier one. -/
def moveTo : ExecutionRecord :=
  match failure with
  | some (failure, error) =>
    { r with state := target, failure := some failure, error := some error }
  | none =>
    if target = .confirmed ∨ target = .reconciled then
      { r with state := target, failure := none, error := none }
    else { r with state := target }

@[simp] theorem moveTo_state : (r.moveTo target failure).state = target := by
  unfold moveTo
  split
  · rfl
  · split <;> rfl

/-- The transaction of the current attempt landed, as far as the record knows:
our own observation, or a verdict without a failure. -/
def Landed : Prop := r.state = .confirmed ∨ r.state = .reconciled ∧ r.failure = none

instance : Decidable r.Landed := inferInstanceAs (Decidable (_ ∨ _))

theorem Landed.not_canRearm {r : ExecutionRecord} (h : r.Landed) : r.canRearm = false := by
  unfold canRearm
  rcases h with hs | ⟨hs, hf⟩
  · rw [hs]
  · rw [hs, hf]
    rfl

theorem Landed.moveTo {r : ExecutionRecord} (h : r.Landed) {target : ExecutionState}
    {failure : Option (FailureClass × String)} (hm : r.state.canTransitionTo target = true)
    (hv : target = .reconciled → failure = none) : (r.moveTo target failure).Landed := by
  rcases h with hs | ⟨hs, -⟩
  · rw [hs] at hm
    obtain rfl := ExecutionState.eq_reconciled_of_confirmed hm
    rw [hv rfl]
    exact .inr ⟨rfl, rfl⟩
  · rw [hs] at hm
    contradiction

end ExecutionRecord

end SniperBot.Execution
