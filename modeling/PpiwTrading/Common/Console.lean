import PpiwTrading.Common.Config
import Mathlib

/-!
# The console of a process

Every sender and every receiver of a process calls its socket under a spin lock of its
own.  The commands `stops` and `stopr` of the console take these locks and keep them,
`restart` gives all of them back, and `reset-net` gives up the ports.  The console
thread spins when a command takes a lock that it already holds; what happens when it
gives back a lock that it does not hold is undefined.
-/

namespace PpiwTrading

/-- The spin locks of a process: `send_lock` of each of its senders, and `recv_lock`. -/
inductive PauseLock
  | sendLock (idx : Nat)
  | recvLock
  deriving DecidableEq, Repr

/-- What a command does. -/
inductive ConsoleOp
  | lock (l : PauseLock)
  | unlock (l : PauseLock)
  | resetNetwork
  deriving DecidableEq, Repr

/-- The commands of `run_console` that reach the network. -/
inductive Command
  | stops
  | stopr
  | restart
  | resetNet
  deriving DecidableEq, Repr

open ConsoleOp PauseLock

/-- The senders of a process, in the order of their loops. -/
def sendLocks (senderNum : Nat) : List PauseLock :=
  (List.range senderNum).map sendLock

/-- `TraderController::stop_sender`, `stop_receiver`, `restart` and `reset_network`. -/
def traderCommand (exchangeNum : Nat) : Command → List ConsoleOp
  | .stops => (sendLocks exchangeNum).map lock
  | .stopr => [lock recvLock]
  | .restart => (sendLocks exchangeNum).map unlock ++ [unlock recvLock]
  | .resetNet => [resetNetwork]

/-- `stop_network_sender`, `stop_network_receiver`, `restart_network` and
`reset_network` of an exchange, which has one sender. -/
def exchangeCommand : Command → List ConsoleOp
  | .stops => [lock (sendLock 0)]
  | .stopr => [lock recvLock]
  | .restart => [unlock recvLock, unlock (sendLock 0)]
  | .resetNet => [resetNetwork]

/-- The locks that the console thread holds, and what is left of its command. -/
structure Console where
  held : PauseLock → Bool
  todo : List ConsoleOp

namespace Console

def new : Console :=
  ⟨fun _ => false, []⟩

/-- A command is entered when the one before it is done. -/
def enter (ops : List ConsoleOp) (console : Console) : Option Console :=
  if console.todo = [] then some { console with todo := ops } else none

/-- The locks held after an operation, when it comes to an end. -/
def hold : ConsoleOp → (PauseLock → Bool) → Option (PauseLock → Bool)
  | lock l, held => if held l then none else some (Function.update held l true)
  | unlock l, held => if held l then some (Function.update held l false) else none
  | resetNetwork, held => some held

/-- The next operation of the console, and what it leaves. -/
def step (console : Console) : Option (ConsoleOp × Console) :=
  match console.todo with
  | [] => none
  | op :: rest => (hold op console.held).map fun held => (op, ⟨held, rest⟩)

/-- The locks held after some operations, when all of them come to an end. -/
def holdAll : List ConsoleOp → (PauseLock → Bool) → Option (PauseLock → Bool)
  | [], held => some held
  | op :: rest, held => (hold op held).bind (holdAll rest)

variable {held held' : PauseLock → Bool} {ls : List PauseLock}

/-- A lock that is held stays held unless it is given back. -/
theorem hold_kept {op : ConsoleOp} (holds : hold op held = some held') {l : PauseLock}
    (before : held l = true) (kept : op ≠ unlock l) : held' l = true := by
  cases op with
  | lock m =>
      simp only [hold, Option.ite_none_left_eq_some, Option.some.injEq] at holds
      rw [← holds.2, Function.update_apply, before]
      exact ite_self true
  | unlock m =>
      simp only [hold, Option.ite_none_right_eq_some, Option.some.injEq] at holds
      have other : l ≠ m := by
        rintro rfl
        exact kept rfl
      rw [← holds.2, Function.update_of_ne other]
      exact before
  | resetNetwork =>
      rw [← Option.some.inj holds]
      exact before

/-- The console is about to take a lock that it holds. -/
def Spins (console : Console) : Prop :=
  ∃ l rest, console.todo = lock l :: rest ∧ console.held l = true

theorem Spins.step_eq_none {console : Console} (spins : Spins console) : console.step = none := by
  rcases spins with ⟨l, rest, next, taken⟩
  simp [step, next, hold, taken]

theorem Spins.enter_eq_none {console : Console} (spins : Spins console) (ops : List ConsoleOp) :
    console.enter ops = none := by
  rcases spins with ⟨l, rest, next, taken⟩
  simp [enter, next]

/-- Taking a lock, or giving it back. -/
def turn : Bool → PauseLock → ConsoleOp
  | true => lock
  | false => unlock

theorem hold_turn (taken : Bool) (l : PauseLock) (held : PauseLock → Bool) :
    hold (turn taken l) held =
      if held l = taken then none else some (Function.update held l taken) := by
  cases taken with
  | true => rfl
  | false => cases atLock : held l <;> simp [turn, hold, atLock]

/-- Locks can be taken one after another when none of them is held, and given back when
all of them are. -/
theorem holdAll_turn (taken : Bool) (distinct : ls.Nodup) (before : ∀ l ∈ ls, held l = !taken) :
    holdAll (ls.map (turn taken)) held = some fun l => if l ∈ ls then taken else held l := by
  induction ls generalizing held with
  | nil => simp [holdAll]
  | cons l rest inductionHypothesis =>
      rw [List.nodup_cons] at distinct
      rw [List.forall_mem_cons] at before
      have others : ∀ m ∈ rest, Function.update held l taken m = !taken := by
        intro m member
        have other : m ≠ l := by
          rintro rfl
          exact distinct.1 member
        rw [Function.update_of_ne other]
        exact before.2 m member
      have canTurn : held l ≠ taken := by
        rw [before.1]
        exact Bool.not_ne_self taken
      simp only [List.map_cons, holdAll, hold_turn, if_neg canTurn, Option.bind_some,
        inductionHypothesis distinct.2 others]
      congr 1
      funext m
      by_cases same : m = l
      · simp [same]
      · simp [same]

/-- What is held after some locks have been taken or given back. -/
theorem holdAll_turn_eq (taken : Bool) (ls : List PauseLock)
    (turned : holdAll (ls.map (turn taken)) held = some held') :
    held' = fun l => if l ∈ ls then taken else held l := by
  induction ls generalizing held with
  | nil =>
      cases turned
      simp
  | cons l rest inductionHypothesis =>
      simp only [List.map_cons, holdAll, hold_turn] at turned
      split at turned
      · cases turned
      · rw [inductionHypothesis turned]
        funext m
        by_cases same : m = l
        · simp [same]
        · simp [same]

/-! ## What the commands hold -/

/-- All the send locks or none, and the receive lock or not. -/
def locks (senderNum : Nat) (sends receives : Bool) : PauseLock → Bool
  | sendLock idx => sends && decide (idx < senderNum)
  | recvLock => receives

/-- The commands of a process with so many senders; the two kinds of processes give the
locks back in different orders. -/
structure Commands (senderNum : Nat) (commands : Command → List ConsoleOp) : Prop where
  stops : commands .stops = (sendLocks senderNum).map lock
  stopr : commands .stopr = [lock recvLock]
  restart : ∃ ls : List PauseLock, ls.Perm (recvLock :: sendLocks senderNum) ∧
    commands .restart = ls.map unlock
  resetNet : commands .resetNet = [resetNetwork]

theorem commands_trader (exchangeNum : Nat) : Commands exchangeNum (traderCommand exchangeNum) where
  stops := rfl
  stopr := rfl
  restart := by
    use sendLocks exchangeNum ++ [recvLock]
    constructor
    · exact List.perm_append_singleton recvLock (sendLocks exchangeNum)
    · simp [traderCommand]
  resetNet := rfl

theorem commands_exchange : Commands 1 exchangeCommand where
  stops := rfl
  stopr := rfl
  restart := ⟨[recvLock, sendLock 0], List.Perm.refl _, rfl⟩
  resetNet := rfl

/-- When the console comes to the end of its command, it holds all send locks or none. -/
def Tidy (senderNum : Nat) (console : Console) : Prop :=
  ∀ held, holdAll console.todo console.held = some held →
    ∃ sends receives, held = locks senderNum sends receives

theorem mem_sendLocks {senderNum : Nat} {l : PauseLock} :
    l ∈ sendLocks senderNum ↔ ∃ idx < senderNum, sendLock idx = l := by
  simp [sendLocks]

theorem exists_sendLocks_eq {senderNum : Nat} (some : 0 < senderNum) :
    ∃ rest, sendLocks senderNum = sendLock 0 :: rest := by
  rcases Nat.exists_eq_succ_of_ne_zero (Nat.ne_of_gt some) with ⟨n, rfl⟩
  use ((List.range n).map Nat.succ).map sendLock
  rw [sendLocks, List.range_succ_eq_map, List.map_cons]

theorem sendLocks_nodup (senderNum : Nat) : (sendLocks senderNum).Nodup := by
  apply List.Nodup.map
  · intro first second same
    cases same
    rfl
  · exact List.nodup_range

section Tidy

variable {senderNum : Nat} {commands : Command → List ConsoleOp}

/-- What turning the send locks does to a pattern of them. -/
theorem locks_turn_sends (taken sends receives : Bool) :
    (fun l => if l ∈ sendLocks senderNum then taken else locks senderNum sends receives l) =
      locks senderNum taken receives := by
  funext l
  cases l with
  | sendLock idx => by_cases inside : idx < senderNum <;> simp [mem_sendLocks, locks, inside]
  | recvLock => simp [mem_sendLocks, locks]

theorem locks_turn_recv (taken sends receives : Bool) :
    (fun l => if l ∈ [recvLock] then taken else locks senderNum sends receives l) =
      locks senderNum sends taken := by
  funext l
  cases l with
  | sendLock idx => simp [locks]
  | recvLock => simp [locks]

theorem locks_turn_all {ls : List PauseLock} (all : ls.Perm (recvLock :: sendLocks senderNum))
    (taken sends receives : Bool) :
    (fun l => if l ∈ ls then taken else locks senderNum sends receives l) =
      locks senderNum taken taken := by
  rw [← locks_turn_sends taken sends, ← locks_turn_recv taken sends receives]
  funext l
  simp only [all.mem_iff, List.mem_cons, List.not_mem_nil, or_false]
  split_ifs <;> simp_all

/-- A command leaves all send locks held or none. -/
theorem Commands.holdAll_locks (serves : Commands senderNum commands) {sends receives : Bool}
    {command : Command} (finished :
      holdAll (commands command) (locks senderNum sends receives) = some held') :
    ∃ sends' receives', held' = locks senderNum sends' receives' := by
  cases command with
  | stops =>
      rw [serves.stops] at finished
      rw [holdAll_turn_eq true _ finished, locks_turn_sends]
      exact ⟨_, _, rfl⟩
  | stopr =>
      rw [serves.stopr] at finished
      rw [holdAll_turn_eq true [recvLock] finished, locks_turn_recv]
      exact ⟨_, _, rfl⟩
  | restart =>
      rcases serves.restart with ⟨ls, all, restart⟩
      rw [restart] at finished
      rw [holdAll_turn_eq false ls finished, locks_turn_all all]
      exact ⟨_, _, rfl⟩
  | resetNet =>
      rw [serves.resetNet] at finished
      cases finished
      exact ⟨_, _, rfl⟩

theorem Tidy.new (senderNum : Nat) : Tidy senderNum Console.new := by
  rintro held ⟨⟩
  use false, false
  funext l
  cases l with
  | sendLock idx => rfl
  | recvLock => rfl

theorem Tidy.enter (serves : Commands senderNum commands) {console console' : Console}
    (tidy : Tidy senderNum console) {command : Command}
    (entered : console.enter (commands command) = some console') : Tidy senderNum console' := by
  unfold Console.enter at entered
  split at entered
  · rename_i done
    cases entered
    intro held finished
    rcases tidy console.held (by rw [done, holdAll]) with ⟨sends, receives, holds⟩
    rw [holds] at finished
    exact serves.holdAll_locks finished
  · cases entered

/-- What a step of the console does. -/
theorem step_eq_some {console console' : Console} {op : ConsoleOp} :
    console.step = some (op, console') ↔
      console.todo = op :: console'.todo ∧ hold op console.held = some console'.held := by
  rcases console with ⟨held, todo⟩
  rcases console' with ⟨held', todo'⟩
  cases todo with
  | nil => simp [step]
  | cons first rest =>
      simp only [step, Option.map_eq_some_iff, Prod.mk.injEq, Console.mk.injEq, List.cons.injEq]
      constructor
      · rintro ⟨_, holds, rfl, rfl, rfl⟩
        exact ⟨⟨rfl, rfl⟩, holds⟩
      · rintro ⟨⟨rfl, rfl⟩, holds⟩
        exact ⟨held', holds, rfl, rfl, rfl⟩

theorem Tidy.step {console console' : Console} {op : ConsoleOp} (tidy : Tidy senderNum console)
    (stepped : console.step = some (op, console')) : Tidy senderNum console' := by
  rcases step_eq_some.mp stepped with ⟨next, holds⟩
  intro held finished
  apply tidy held
  rw [next, holdAll, holds]
  exact finished

/-- When no lock is held, `stops` and `stopr` come to an end, and so does `restart` when
all are. -/
theorem Commands.thaw (serves : Commands senderNum commands) (other : Bool) :
    holdAll (commands .stops) (locks senderNum false other) =
        some (locks senderNum true other) ∧
      holdAll (commands .stopr) (locks senderNum other false) =
        some (locks senderNum other true) ∧
      holdAll (commands .restart) (locks senderNum true true) =
        some (locks senderNum false false) := by
  refine ⟨?_, ?_, ?_⟩
  · rw [serves.stops, ← locks_turn_sends true false]
    apply holdAll_turn true (sendLocks_nodup senderNum)
    intro l member
    rcases mem_sendLocks.mp member with ⟨idx, _, rfl⟩
    rfl
  · rw [serves.stopr, ← locks_turn_recv true other false]
    apply holdAll_turn true (List.nodup_singleton recvLock)
    intro l member
    rw [List.mem_singleton.mp member]
    rfl
  · rcases serves.restart with ⟨ls, all, restart⟩
    rw [restart, ← locks_turn_all all false true true]
    apply holdAll_turn false
    · rw [all.nodup_iff, List.nodup_cons]
      exact ⟨by simp [mem_sendLocks], sendLocks_nodup senderNum⟩
    · intro l member
      rcases List.mem_cons.mp (all.mem_iff.mp member) with rfl | isSend
      · rfl
      · rcases mem_sendLocks.mp isSend with ⟨idx, inside, rfl⟩
        simp [locks, inside]

end Tidy

end Console

end PpiwTrading
