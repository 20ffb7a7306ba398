import Mathlib.Data.List.Basic
import Mathlib.Algebra.Order.Ring.Nat

/-!
`src/node/src/network.rs`: the route table of `Kadcast` and the temporary
route that `send_and_wait` registers for the response topic, and the counter
of pending sender tasks that `Listener::reroute` keeps with relaxed atomic
`u64` operations.

A route holds an opaque queue of type `Q`; the table is the fixed-size array
`RoutesList<N>` as a list whose length never changes. The request's encoding
and what the wait for the temporary queue ends with are inputs of
`sendAndWait`. For the counter, every atomic operation of a `reroute` call
and of a sender task is one step, and any interleaving of them is a run:
`Reachable allowed` holds of the states that steps admitted by `allowed`
reach from a new listener, whose counter starts at `AtomicU64::new(0)`, and
under `NoReset` no call takes the "too many sender jobs" branch.
-/

namespace RuskProofs.Network

section Routes

variable {Q M : Type}

def removeRoute (routes : List (Option Q)) (topic : UInt8) : List (Option Q) :=
  match routes[topic.toNat]? with
  | some (some _) => routes.set topic.toNat none
  | _ => routes

/-- `add_route`. Its `debug_assert!` that the topic has no route is checked in
debug builds only and is left out; `send_and_wait` calls it right after
`remove_route`, where it holds. -/
def addRoute (routes : List (Option Q)) (topic : UInt8) (queue : Q) :
    Except String (List (Option Q)) :=
  if topic.toNat < routes.length then .ok (routes.set topic.toNat (some queue))
  else .error ("topic out of range: " ++ toString topic)

def sendToAlivePeers (encoded : Except String (List UInt8)) : Except String Unit :=
  match encoded with
  | .ok _ => .ok ()
  | .error err => .error ("failed to encode: " ++ err)

inductive Outcome (M : Type) where
  | received (msg : M)
  | closed
  | timeout

/-- `send_and_wait`, returning the route table it leaves and its result;
`outcome` is what `timeout_at(deadline, queue.recv())` ends with. The `?` and
`anyhow::bail!` inside the `let res = { ... }` block return from the function
itself, so only a received response reaches the final `remove_route`. -/
def sendAndWait (routes : List (Option Q)) (topic : UInt8) (queue : Q)
    (encoded : Except String (List UInt8)) (outcome : Outcome M) :
    List (Option Q) × Except String M :=
  let routes := removeRoute routes topic
  match addRoute routes topic queue with
  | .error e => (routes, .error e)
  | .ok routes =>
    match sendToAlivePeers encoded with
    | .error e => (routes, .error e)
    | .ok () =>
      match outcome with
      | .received msg => (removeRoute routes topic, .ok msg)
      | .closed => (routes, .error "failed to receive")
      | .timeout => (routes, .error "timeout err")

def Outcome.answered (encoded : Except String (List UInt8)) : Outcome M → Bool
  | .received _ => encoded.isOk
  | .closed => false
  | .timeout => false

theorem removeRoute_of_lt {routes : List (Option Q)} {topic : UInt8}
    (h : topic.toNat < routes.length) : removeRoute routes topic = routes.set topic.toNat none := by
  unfold removeRoute
  split
  · rfl
  · rename_i hne
    ext1 i
    by_cases hi : topic.toNat = i
    · subst hi
      rw [List.getElem?_set_self h]
      cases hr : routes[topic.toNat]? with
      | none => exact absurd hr (by simp [h])
      | some r => cases r with
        | none => rfl
        | some q => exact absurd hr (hne q)
    · rw [List.getElem?_set_ne hi]

theorem removeRoute_of_le {routes : List (Option Q)} {topic : UInt8}
    (h : routes.length ≤ topic.toNat) : removeRoute routes topic = routes := by
  simp [removeRoute, List.getElem?_eq_none h]

@[simp] theorem length_removeRoute (routes : List (Option Q)) (topic : UInt8) :
    (removeRoute routes topic).length = routes.length := by
  unfold removeRoute; split <;> simp

/-- Where `send_and_wait` leaves the route table: a topic in range ends with
the temporary queue still registered unless a response was received, every
other route as it was; a topic out of range leaves the table unchanged. -/
theorem sendAndWait_routes (routes : List (Option Q)) (topic : UInt8) (queue : Q)
    (encoded : Except String (List UInt8)) (outcome : Outcome M) :
    (sendAndWait routes topic queue encoded outcome).1 =
      if topic.toNat < routes.length then
        routes.set topic.toNat (if outcome.answered encoded then none else some queue)
      else routes := by
  by_cases h : topic.toNat < routes.length
  · rw [if_pos h]
    have hadd : addRoute (removeRoute routes topic) topic queue =
        .ok (routes.set topic.toNat (some queue)) := by
      simp [addRoute, removeRoute_of_lt h, h]
    have hset : topic.toNat < (routes.set topic.toNat (some queue)).length := by simpa using h
    simp only [sendAndWait, hadd]
    cases encoded <;> cases outcome <;>
      simp [sendToAlivePeers, Outcome.answered, Except.isOk, Except.toBool,
        removeRoute_of_lt hset]
  · have hr := removeRoute_of_le (Nat.le_of_not_lt h)
    simp [h, sendAndWait, hr, addRoute]

/-- A timeout, a closed queue and a request that fails to encode each leave
the temporary route registered. -/
theorem send_and_wait_leaves_temporary_route :
    sendAndWait [none, none] 1 () (.ok []) (.timeout : Outcome Unit) =
        ([none, some ()], .error "timeout err") ∧
      sendAndWait [none, none] 1 () (.ok []) (.closed : Outcome Unit) =
        ([none, some ()], .error "failed to receive") ∧
      sendAndWait [none, none] 1 () (.error "") (.received () : Outcome Unit) =
        ([none, some ()], .error "failed to encode: ") :=
  have hroutes := sendAndWait_routes [none, none] 1 ()
  ⟨Prod.ext ((hroutes _ _).trans rfl) rfl, Prod.ext ((hroutes _ _).trans rfl) rfl,
    Prod.ext ((hroutes _ _).trans rfl) rfl⟩

end Routes

def maxPendingSenders : UInt64 := 1000

/-- The counter `pending_senders` and the calls and tasks acting on it. A call
of `reroute` makes its `fetch_add`, then, if that saw the counter at the
limit, its `store(0)` (`resetting` counts the calls between the two), then
spawns its sender task (`spawning` counts the calls about to); a sender task
(`senders` counts those not finished) ends with its `fetch_sub`. Each of these
is one `Action`, and `step` is `none` when no call or task is at that point. -/
structure Listener where
  pendingSenders : UInt64
  resetting : Nat
  spawning : Nat
  senders : Nat
deriving DecidableEq

inductive Action where
  | fetchAdd
  | store
  | spawn
  | finish

def Listener.step (l : Listener) : Action → Option Listener
  | .fetchAdd =>
    if l.pendingSenders ≥ maxPendingSenders then
      some { l with pendingSenders := l.pendingSenders + 1, resetting := l.resetting + 1 }
    else some { l with pendingSenders := l.pendingSenders + 1, spawning := l.spawning + 1 }
  | .store =>
    if l.resetting = 0 then none
    else
      some { l with pendingSenders := 0, resetting := l.resetting - 1, spawning := l.spawning + 1 }
  | .spawn =>
    if l.spawning = 0 then none
    else some { l with spawning := l.spawning - 1, senders := l.senders + 1 }
  | .finish =>
    if l.senders = 0 then none
    else some { l with pendingSenders := l.pendingSenders - 1, senders := l.senders - 1 }

inductive Reachable (allowed : Listener → Action → Prop) : Listener → Prop
  | init : Reachable allowed ⟨0, 0, 0, 0⟩
  | step {l l' : Listener} {a : Action} :
      Reachable allowed l → allowed l a → l.step a = some l' → Reachable allowed l'

def NoReset (l : Listener) (a : Action) : Prop :=
  a = .fetchAdd → l.pendingSenders < maxPendingSenders

section Counter

variable {l : Listener}

theorem maxPendingSenders_le_iff {x : UInt64} : maxPendingSenders ≤ x ↔ 1000 ≤ x.toNat :=
  Iff.rfl

theorem toNat_add_one (x : UInt64) : (x + 1).toNat = (x.toNat + 1) % 2 ^ 64 := rfl

theorem toNat_sub_one (x : UInt64) : (x - 1).toNat = (2 ^ 64 - 1 + x.toNat) % 2 ^ 64 := rfl

theorem step_fetchAdd_of_lt (h : l.pendingSenders.toNat < 1000) :
    l.step .fetchAdd =
      some { l with pendingSenders := l.pendingSenders + 1, spawning := l.spawning + 1 } := by
  have : ¬ l.pendingSenders ≥ maxPendingSenders := by
    rw [ge_iff_le, maxPendingSenders_le_iff]; omega
  simp [Listener.step, this]

theorem step_fetchAdd_of_ge (h : 1000 ≤ l.pendingSenders.toNat) :
    l.step .fetchAdd =
      some { l with pendingSenders := l.pendingSenders + 1, resetting := l.resetting + 1 } := by
  have : l.pendingSenders ≥ maxPendingSenders := maxPendingSenders_le_iff.mpr h
  simp [Listener.step, this]

theorem step_store (h : 0 < l.resetting) :
    l.step .store =
      some { l with pendingSenders := 0, resetting := l.resetting - 1,
                    spawning := l.spawning + 1 } := by
  simp [Listener.step, Nat.pos_iff_ne_zero.mp h]

theorem step_spawn (h : 0 < l.spawning) :
    l.step .spawn = some { l with spawning := l.spawning - 1, senders := l.senders + 1 } := by
  simp [Listener.step, Nat.pos_iff_ne_zero.mp h]

theorem step_finish (h : 0 < l.senders) :
    l.step .finish =
      some { l with pendingSenders := l.pendingSenders - 1, senders := l.senders - 1 } := by
  simp [Listener.step, Nat.pos_iff_ne_zero.mp h]

/-- Until a call takes the reset branch the counter is exact: it counts the
calls past their `fetch_add` that have not spawned yet and the sender tasks
not finished, and it stays within the limit. -/
structure ExactCount (l : Listener) : Prop where
  no_resetting : l.resetting = 0
  exact : l.pendingSenders.toNat = l.spawning + l.senders
  le_max : l.spawning + l.senders ≤ 1000

theorem exactCount_step {l l' : Listener} {a : Action} (hl : ExactCount l)
    (ha : NoReset l a) (h : l.step a = some l') : ExactCount l' := by
  obtain ⟨h0, hex, hle⟩ := hl
  cases a with
  | fetchAdd =>
    have hlt : l.pendingSenders.toNat < 1000 := ha rfl
    rw [step_fetchAdd_of_lt hlt, Option.some.injEq] at h
    subst h
    refine ⟨h0, ?_, ?_⟩ <;> dsimp only
    · rw [toNat_add_one, hex]; omega
    · omega
  | store => simp [Listener.step, h0] at h
  | spawn =>
    have hpos : 0 < l.spawning := Nat.pos_of_ne_zero fun hz => by simp [Listener.step, hz] at h
    rw [step_spawn hpos, Option.some.injEq] at h
    subst h
    refine ⟨h0, ?_, ?_⟩ <;> dsimp only <;> omega
  | finish =>
    have hpos : 0 < l.senders := Nat.pos_of_ne_zero fun hz => by simp [Listener.step, hz] at h
    rw [step_finish hpos, Option.some.injEq] at h
    subst h
    refine ⟨h0, ?_, ?_⟩ <;> dsimp only
    · rw [toNat_sub_one, hex]; omega
    · omega

/-- In every interleaving in which no call takes the reset branch, the
counter equals the number of calls about to spawn plus the sender tasks not
finished, and never passes `MAX_PENDING_SENDERS`. -/
theorem exactCount_of_reachable (h : Reachable NoReset l) : ExactCount l := by
  induction h with
  | init => exact ⟨rfl, rfl, by decide⟩
  | step _ ha hstep ih => exact exactCount_step ih ha hstep

theorem one_call_past_fetch_add_counted :
    Reachable NoReset ⟨1, 0, 1, 0⟩ ∧ ExactCount ⟨1, 0, 1, 0⟩ := by
  have hstep : Listener.step ⟨0, 0, 0, 0⟩ .fetchAdd = some ⟨1, 0, 1, 0⟩ := by decide
  have h : Reachable NoReset ⟨1, 0, 1, 0⟩ := .step .init (fun _ => by decide) hstep
  exact ⟨h, exactCount_of_reachable h⟩

theorem reachable_fill (n : Nat) (hn : n ≤ 1000) :
    ∃ l, Reachable (fun _ _ => True) l ∧ l.pendingSenders.toNat = n ∧ l.resetting = 0 ∧
      l.spawning = 0 ∧ l.senders = n := by
  induction n with
  | zero => exact ⟨_, .init, rfl, rfl, rfl, rfl⟩
  | succ n ih =>
    obtain ⟨l, hl, hc, hr, hs, hn'⟩ := ih (by omega)
    have hlt : l.pendingSenders.toNat < 1000 := by omega
    refine ⟨_, .step (.step hl trivial (step_fetchAdd_of_lt hlt)) trivial
      (step_spawn (Nat.succ_pos _)), ?_, hr, by dsimp only; omega, by dsimp only; omega⟩
    dsimp only
    rw [toNat_add_one, hc]
    omega

theorem reachable_drain (m : Nat) :
    ∀ l, Reachable (fun _ _ => True) l → m ≤ l.senders →
      ∃ l', Reachable (fun _ _ => True) l' ∧
        l'.pendingSenders.toNat = (l.pendingSenders.toNat + m * (2 ^ 64 - 1)) % 2 ^ 64 ∧
        l'.resetting = l.resetting ∧ l'.spawning = l.spawning ∧ l'.senders = l.senders - m := by
  induction m with
  | zero => exact fun l hl _ => ⟨l, hl, by simp [Nat.mod_eq_of_lt l.pendingSenders.toNat_lt_size],
      rfl, rfl, rfl⟩
  | succ m ih =>
    intro l hl hm
    obtain ⟨l', hl', hc, hr, hs, hn⟩ :=
      ih _ (.step hl trivial (step_finish (by omega))) (by dsimp only; omega)
    refine ⟨l', hl', ?_, hr, hs, by rw [hn]; dsimp only; omega⟩
    rw [hc]
    dsimp only
    rw [toNat_sub_one]
    omega

end Counter

/-- A thousand calls of `reroute` whose sender tasks are still running, one
more call that resets the counter, then every task finishing: the counter
wraps to `2 ^ 64 - 1001` with no task pending, and the next call takes the
reset branch again. -/
theorem pending_senders_wraps_below_zero :
    ∃ l, Reachable (fun _ _ => True) l ∧ l.resetting = 0 ∧ l.spawning = 0 ∧ l.senders = 0 ∧
      l.pendingSenders.toNat = 2 ^ 64 - 1001 ∧ l.pendingSenders ≥ maxPendingSenders ∧
      l.step .fetchAdd =
        some { l with pendingSenders := l.pendingSenders + 1, resetting := 1 } := by
  obtain ⟨l, hl, hc, hr, hs, hn⟩ := reachable_fill 1000 le_rfl
  have hreset := Reachable.step (.step (.step hl trivial (step_fetchAdd_of_ge (by omega)))
    trivial (step_store (Nat.succ_pos _))) trivial (step_spawn (Nat.succ_pos _))
  obtain ⟨l', hl', hc', hr', hs', hn'⟩ := reachable_drain 1001 _ hreset (by dsimp only; omega)
  dsimp only at hc' hr' hs' hn'
  have hwrap : l'.pendingSenders.toNat = 2 ^ 64 - 1001 := by rw [hc']; rfl
  have hr0 : l'.resetting = 0 := by omega
  refine ⟨l', hl', hr0, by omega, by omega, hwrap, maxPendingSenders_le_iff.mpr (by omega), ?_⟩
  rw [step_fetchAdd_of_ge (by omega), hr0]

end RuskProofs.Network
