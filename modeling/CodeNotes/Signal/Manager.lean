import Mathlib.Data.Finmap
import Mathlib.Tactic
import CodeNotes.Lib.Run

/-!
# The signal manager

`SignalManager` of `linux-signal-process` keeps a map from signal numbers to handlers next to the
process's signal dispositions.  Every operation updates the two tables in separate steps, and a
signal may be delivered between any two of them.  A call is a walk through the program points `Pc`;
`advance outcome` takes its next step, where `outcome` is the answer of `std::signal` if the step
calls it.
-/

namespace CodeNotes.Signal

/-- What the process does on a signal. -/
inductive Disposition where
  | SIG_DFL
  | SIG_IGN
  | internalSignalHandler
  /-- A handler installed by other code. -/
  | other (handler : ℕ)
  deriving DecidableEq

/-- `std::unordered_map<int, std::shared_ptr<SignalHandler>>`; `none` is a null pointer. -/
abbrev Handlers (H : Type) := Finmap fun _ : Int32 => Option H

/-- Program points of the manager's operations, named by the step that comes next. -/
inductive Pc (H : Type) where
  /-- Between calls. -/
  | idle
  /-- `registerSignal`: `m_handlers[signal] = handler`. -/
  | storing (signal : Int32) (handler : H)
  /-- `registerSignal`: `std::signal(signal, internalSignalHandler)`. -/
  | installing (signal : Int32)
  /-- `registerSignal`: `m_handlers.erase(signal)` after `SIG_ERR`. -/
  | withdrawing (signal : Int32)
  /-- `unregisterSignal`: `std::signal(signal, SIG_DFL)`. -/
  | uninstalling (signal : Int32)
  /-- `unregisterSignal`: `m_handlers.erase(it)`. -/
  | erasing (signal : Int32)
  /-- `clearAllSignals`: the entries the loop has not reached, then `m_handlers.clear()`. -/
  | clearing (rest : List Int32)

structure State (H : Type) where
  m_handlers : Handlers H
  disposition : Int32 → Disposition
  pc : Pc H
  /-- What the last complete call returned (`none` for `void`). -/
  returned : Option Bool
  /-- Deliveries that reached a handler. -/
  handled : List (Int32 × H)
  /-- Deliveries that found no handler. -/
  warned : List Int32

/-- A call of the manager.  `clearAllSignals` visits the entries of the map in some order. -/
inductive Call (H : Type) where
  | registerSignal (signal : Int32) (handler : Option H)
  | unregisterSignal (signal : Int32)
  | clearAllSignals (order : List Int32)

section Model

variable {H : Type}

namespace State

def init (disposition : Int32 → Disposition) : State H :=
  { m_handlers := ∅, disposition, pc := .idle, returned := none, handled := [], warned := [] }

/-- `std::signal(signal, d)`; a call that fails changes nothing. -/
def setSignal (st : State H) (outcome : Bool) (signal : Int32) (d : Disposition) : State H :=
  if outcome then { st with disposition := Function.update st.disposition signal d } else st

def finish (st : State H) (result : Option Bool) : State H :=
  { st with pc := .idle, returned := result }

def getHandler (st : State H) (signal : Int32) : Option H :=
  match st.m_handlers.lookup signal with
  | some handler => handler
  | none => none

/-- The first steps of a call, up to its first change of either table. -/
def call (st : State H) : Call H → Option (State H)
  | .registerSignal _ none => some (st.finish (some false))
  | .registerSignal signal (some handler) => some { st with pc := .storing signal handler }
  | .unregisterSignal signal =>
      if signal ∈ st.m_handlers then some { st with pc := .uninstalling signal }
      else some (st.finish (some false))
  | .clearAllSignals order =>
      if order.Nodup ∧ order.toFinset = st.m_handlers.keys then
        some { st with pc := .clearing order }
      else none

/-- The next step of the call under way. -/
def advance (st : State H) (outcome : Bool) : Option (State H) :=
  match st.pc with
  | .idle => none
  | .storing signal handler => some { st with
      m_handlers := st.m_handlers.insert signal (some handler), pc := .installing signal }
  | .installing signal =>
      let st := st.setSignal outcome signal .internalSignalHandler
      if outcome then some (st.finish (some true)) else some { st with pc := .withdrawing signal }
  | .withdrawing signal =>
      some ({ st with m_handlers := st.m_handlers.erase signal }.finish (some false))
  | .uninstalling signal =>
      let st := st.setSignal outcome signal .SIG_DFL
      if outcome then some { st with pc := .erasing signal } else some (st.finish (some false))
  | .erasing signal =>
      some ({ st with m_handlers := st.m_handlers.erase signal }.finish (some true))
  | .clearing [] => some ({ st with m_handlers := ∅ }.finish none)
  | .clearing (signal :: rest) =>
      some { st.setSignal outcome signal .SIG_DFL with pc := .clearing rest }

/-- `internalSignalHandler(signal)`. -/
def internalSignalHandler (st : State H) (signal : Int32) : State H :=
  match st.getHandler signal with
  | some handler => { st with handled := st.handled ++ [(signal, handler)] }
  | none => { st with warned := st.warned ++ [signal] }

end State

/-- The signal number of the next `std::signal` call, where the next step makes one. -/
def Pc.signal : Pc H → Int32
  | .installing signal | .uninstalling signal | .clearing (signal :: _) => signal
  | _ => 0

inductive Event (H : Type) where
  | call (c : Call H)
  | advance
  | deliver (signal : Int32)

/-- One event, when `std::signal` succeeds or fails by the signal number alone. -/
def step (succeeds : Int32 → Bool) (st : State H) : Event H → Option (State H)
  | .call c => match st.pc with
    | .idle => st.call c
    | _ => none
  | .advance => st.advance (succeeds st.pc.signal)
  | .deliver signal =>
      if st.disposition signal = .internalSignalHandler then some (st.internalSignalHandler signal)
      else none

end Model

end CodeNotes.Signal
