import Mathlib.Data.Fintype.Card
import Mathlib.Algebra.Order.Ring.Nat

/-!
Vote accumulation of `consensus/src/agreement/accumulator.rs`. A pool of
workers drains one unbounded queue of agreement messages; each worker verifies
a message and then tallies it, under the `stores` mutex, into the weight kept
for its `(block_hash, step)`. The pool is an interleaving of worker steps: the
order in which the workers take messages and enter the critical section is
free, and every fact below holds for all of them.
-/

namespace RuskProofs.Accumulator

/-- The fields of a consensus message header that the accumulator reads.
Hashes and keys are compared for equality only and are kept as numbers. -/
structure MsgHeader where
  round : UInt64
  step : UInt8
  blockHash : Nat
  pubkeyBls : Nat
deriving DecidableEq

/-- Message payloads; only `Agreement` payloads are tallied. -/
inductive Payload (A : Type) where
  | agreement (payload : A)
  | other
deriving DecidableEq

structure Message (A : Type) where
  header : MsgHeader
  payload : Payload A
deriving DecidableEq

/-- `sortition::Config::new(seed, round, step, size)`. -/
structure Config where
  seed : Nat
  round : UInt64
  step : UInt8
  size : Nat
deriving DecidableEq

/-- The two `CommitteeSet` queries that `accumulate` makes. -/
structure CommitteeSet where
  votesFor : Nat → Config → Option Nat
  quorum : Config → Nat

/-- What the workers share besides the store: the committees, the round seed
and the outcome of `verify_agreement`. -/
structure Env (A : Type) where
  committeesSet : CommitteeSet
  seed : Nat
  verifyAgreement : Message A → Bool

/-- `StorePerHash`: block hash, then step, to the set of agreements seen and
their cumulative weight. A missing entry reads as `(∅, 0)`, which is what
`or_insert` puts there. -/
abbrev Store (A : Type) := Nat → UInt8 → List A × Nat

def Store.empty : Store A := fun _ _ => ([], 0)

def Store.set (st : Store A) (h : Nat) (s : UInt8) (v : List A × Nat) : Store A :=
  fun h' s' => if h' = h ∧ s' = s then v else st h' s'

@[simp] theorem Store.empty_apply (h : Nat) (s : UInt8) : (Store.empty : Store A) h s = ([], 0) :=
  rfl

variable {A : Type} [DecidableEq A] {W : Nat}

/-- The sortition config `accumulate` derives from a message. -/
def Env.config (env : Env A) (msg : Message A) : Config :=
  ⟨env.seed, msg.header.round, msg.header.step, 64⟩

/-- `votes_for` of the message's signer. -/
def Env.weight (env : Env A) (msg : Message A) : Option Nat :=
  env.committeesSet.votesFor msg.header.pubkeyBls (env.config msg)

/-- `Accumulator::accumulate`. The Boolean is `true` where the source returns
`Some(Message::empty())`. -/
def accumulate (env : Env A) (stores : Store A) (msg : Message A) : Bool × Store A :=
  let hdr := msg.header
  match env.weight msg with
  | none => (false, stores)
  | some weight =>
    if weight = 0 then (false, stores)
    else
      match msg.payload with
      | .agreement payload =>
        let (agrSet, agrWeight) := stores hdr.blockHash hdr.step
        if payload ∈ agrSet then (false, stores)
        else
          let agrWeight := agrWeight + weight
          (decide (env.committeesSet.quorum (env.config msg) ≤ agrWeight),
            stores.set hdr.blockHash hdr.step (payload :: agrSet, agrWeight))
      | .other => (false, stores)

/-- A worker waits at `rx.recv()`, holds a message it received, or has left
its loop with `break` after an emission. -/
inductive Worker (A : Type) where
  | idle
  | holding (msg : Message A)
  | exited
deriving DecidableEq

/-- The pool after `spawn_workers_pool(W, ..)`. Besides the queue, the workers
and the store it records two observations: every message handed to `process`,
and every `accumulate` call that returned `Some`, with the worker that made it. -/
structure Pool (A : Type) (W : Nat) where
  queue : List (Message A)
  workers : Fin W → Worker A
  stores : Store A
  sent : List (Message A)
  emitted : List (Fin W × Message A)

def Pool.init : Pool A W := ⟨[], fun _ => .idle, Store.empty, [], []⟩

inductive Action (A : Type) (W : Nat) where
  | process (msg : Message A)
  | recv (k : Fin W)
  | handle (k : Fin W)

/-- The body of a worker's loop for one received message: discard an empty
block hash, discard a message that fails `verify_agreement`, else accumulate
and, on `Some`, send and `break`. The accumulate call runs under the `stores`
mutex, so it is one atomic step. -/
def handleMessage (env : Env A) (p : Pool A W) (k : Fin W) (msg : Message A) : Pool A W :=
  if msg.header.blockHash = 0 ∨ env.verifyAgreement msg = false then
    { p with workers := Function.update p.workers k .idle }
  else
    match accumulate env p.stores msg with
    | (true, stores) =>
      { p with stores, workers := Function.update p.workers k .exited,
               emitted := p.emitted ++ [(k, msg)] }
    | (false, stores) => { p with stores, workers := Function.update p.workers k .idle }

def step (env : Env A) (p : Pool A W) : Action A W → Option (Pool A W)
  | .process msg => some { p with queue := p.queue ++ [msg], sent := p.sent ++ [msg] }
  | .recv k =>
    match p.workers k, p.queue with
    | .idle, msg :: rest =>
      some { p with queue := rest, workers := Function.update p.workers k (.holding msg) }
    | _, _ => none
  | .handle k =>
    match p.workers k with
    | .holding msg => some (handleMessage env p k msg)
    | _ => none

inductive Reachable (env : Env A) : Pool A W → Prop
  | init : Reachable env Pool.init
  | step {p p' : Pool A W} (a : Action A W) :
      Reachable env p → step env p a = some p' → Reachable env p'

@[simp] theorem handleMessage_queue (env : Env A) (p : Pool A W) (k : Fin W) (msg : Message A) :
    (handleMessage env p k msg).queue = p.queue := by
  unfold handleMessage; split
  · rfl
  · split <;> rfl

/-- A handled message sends its worker back to `recv`, or makes it emit once
and exit. -/
theorem handleMessage_workers (env : Env A) (p : Pool A W) (k : Fin W) (msg : Message A) :
    ((handleMessage env p k msg).workers = Function.update p.workers k .idle ∧
      (handleMessage env p k msg).emitted = p.emitted) ∨
    ((handleMessage env p k msg).workers = Function.update p.workers k .exited ∧
      (handleMessage env p k msg).emitted = p.emitted ++ [(k, msg)] ∧
      ∃ stores, accumulate env p.stores msg = (true, stores) ∧
        (handleMessage env p k msg).stores = stores) := by
  unfold handleMessage; split
  · exact .inl ⟨rfl, rfl⟩
  · split
    · next stores h => exact .inr ⟨rfl, rfl, stores, h, rfl⟩
    · exact .inl ⟨rfl, rfl⟩

/-- Everything one step of the pool can do. -/
theorem step_cases {env : Env A} {p p' : Pool A W} {a : Action A W}
    (h : step env p a = some p') :
    (∃ msg, p' = { p with queue := p.queue ++ [msg], sent := p.sent ++ [msg] }) ∨
    (∃ k msg rest, p.workers k = .idle ∧ p.queue = msg :: rest ∧
      p' = { p with queue := rest, workers := Function.update p.workers k (.holding msg) }) ∨
    (∃ k msg, p.workers k = .holding msg ∧ p' = handleMessage env p k msg) := by
  cases a with
  | process msg => exact .inl ⟨msg, (Option.some.inj h).symm⟩
  | recv k =>
      simp only [step] at h
      split at h
      · next msg rest hk hq => exact .inr (.inl ⟨k, msg, rest, hk, hq, (Option.some.inj h).symm⟩)
      · cases h
  | handle k =>
      simp only [step] at h
      split at h
      · next msg hk => exact .inr (.inr ⟨k, msg, hk, (Option.some.inj h).symm⟩)
      · cases h

/-- Apply actions in order; `none` as soon as one is not enabled. -/
def run (env : Env A) : Pool A W → List (Action A W) → Option (Pool A W)
  | p, [] => some p
  | p, a :: as => (step env p a).bind (run env · as)

theorem reachable_run {env : Env A} {p : Pool A W} (hp : Reachable env p) :
    ∀ {as : List (Action A W)} {p' : Pool A W}, run env p as = some p' → Reachable env p' := by
  intro as
  induction as generalizing p with
  | nil => intro p' h; exact Option.some.inj h ▸ hp
  | cons a as ih =>
      intro p' h
      simp only [run, Option.bind_eq_some] at h
      obtain ⟨q, hq, hrun⟩ := h
      exact ih (.step a hp hq) hrun

/-- A committee in which every key is a member with one vote, and one vote
reaches the quorum. -/
def oneVoteQuorum : Env Nat :=
  ⟨⟨fun _ _ => some 1, fun _ => 1⟩, 0, fun _ => true⟩

/-- An agreement for block hash `1` at step `0`. -/
def agreementFrom (signer payload : Nat) : Message Nat :=
  ⟨⟨0, 0, 1, signer⟩, .agreement payload⟩

theorem run_two_agreements :
    ∃ p : Pool Nat 2, run oneVoteQuorum Pool.init
        [.process (agreementFrom 1 1), .process (agreementFrom 2 2),
          .recv 0, .recv 1, .handle 0, .handle 1] = some p ∧
      p.emitted.map (fun e => (e.2.header.blockHash, e.2.header.step)) = [(1, 0), (1, 0)] := by
  have h : (run oneVoteQuorum (Pool.init : Pool Nat 2)
      [.process (agreementFrom 1 1), .process (agreementFrom 2 2),
        .recv 0, .recv 1, .handle 0, .handle 1]).map
      (fun p => p.emitted.map (fun e => (e.2.header.blockHash, e.2.header.step))) =
      some [(1, 0), (1, 0)] := by decide
  exact Option.map_eq_some'.mp h

/-- Two workers take one agreement each; both cross the threshold of the same
`(block_hash, step)`, one after the other, and both emit. -/
theorem accumulate_emits_twice_with_two_workers :
    ∃ p : Pool Nat 2, Reachable oneVoteQuorum p ∧
      p.emitted.map (fun e => (e.2.header.blockHash, e.2.header.step)) = [(1, 0), (1, 0)] := by
  obtain ⟨p, hrun, hp⟩ := run_two_agreements
  exact ⟨p, reachable_run .init hrun, hp⟩

/-- Every emission was made by a different worker, and that worker has left
its loop. -/
def EmittersExited (p : Pool A W) : Prop :=
  (p.emitted.map Prod.fst).Nodup ∧ ∀ k ∈ p.emitted.map Prod.fst, p.workers k = .exited

omit [DecidableEq A] in
theorem emittersExited_init : EmittersExited (Pool.init : Pool A W) :=
  ⟨List.nodup_nil, fun _ hk => by simp [Pool.init] at hk⟩

theorem emittersExited_step {env : Env A} {p p' : Pool A W} {a : Action A W}
    (hi : EmittersExited p) (h : step env p a = some p') : EmittersExited p' := by
  have fresh : ∀ k, p.workers k ≠ .exited → k ∉ p.emitted.map Prod.fst :=
    fun k hk hm => hk (hi.2 k hm)
  rcases step_cases h with ⟨msg, rfl⟩ | ⟨k, msg, rest, hk, -, rfl⟩ | ⟨k, msg, hk, rfl⟩
  · exact hi
  · refine ⟨hi.1, fun j hj => ?_⟩
    have hjk : j ≠ k := fun e => fresh k (by simp [hk]) (e ▸ hj)
    simpa [Function.update_noteq hjk] using hi.2 j hj
  · have hkfresh := fresh k (by simp [hk])
    rcases handleMessage_workers env p k msg with ⟨hw, he⟩ | ⟨hw, he, -⟩
    · refine ⟨he ▸ hi.1, fun j hj => ?_⟩
      rw [he] at hj
      have hjk : j ≠ k := fun e => hkfresh (e ▸ hj)
      simpa [hw, Function.update_noteq hjk] using hi.2 j hj
    · refine ⟨?_, fun j hj => ?_⟩
      · rw [he, List.map_append]
        exact hi.1.append (List.nodup_singleton k) (List.disjoint_singleton.mpr hkfresh)
      rw [he, List.map_append, List.mem_append] at hj
      rcases hj with hj | hj
      · have hjk : j ≠ k := fun e => hkfresh (e ▸ hj)
        simpa [hw, Function.update_noteq hjk] using hi.2 j hj
      · simp only [List.map_cons, List.map_nil, List.mem_singleton] at hj
        simp [hw, hj]

theorem emittersExited_of_reachable {env : Env A} {p : Pool A W} (hp : Reachable env p) :
    EmittersExited p := by
  induction hp with
  | init => exact emittersExited_init
  | step _ _ hs ih => exact emittersExited_step ih hs

/-- Only the emitting worker leaves the loop, so `W` workers emit at most `W`
times in all, whatever the keys. -/
theorem emitted_length_le_workers {env : Env A} {p : Pool A W} (hp : Reachable env p) :
    p.emitted.length ≤ W := by
  simpa using (emittersExited_of_reachable hp).1.length_le_card

/-- Two workers after both emitted: the bound is reached. -/
theorem two_workers_emit_at_most_twice :
    ∃ p : Pool Nat 2, Reachable oneVoteQuorum p ∧ p.emitted.length = 2 ∧ p.emitted.length ≤ 2 := by
  obtain ⟨p, hrun, hp⟩ := run_two_agreements
  have hreach := reachable_run .init hrun
  exact ⟨p, hreach, by simpa using congrArg List.length hp, emitted_length_le_workers hreach⟩

end RuskProofs.Accumulator
