import Mathlib.Data.List.AList
import RuskProofs.Wire.Encoding

/-!
The state that the acceptor of `node/src/chain/acceptor.rs` reads and writes
(the tip, the provisioners, the ledger of the database and the finalized root
of the VM) and the answers of the components it calls. Those components are not
in the sources: the database and the provisioner sets follow the spec's
contracts, and every answer of the VM, and every fault of the VM or the
database, comes from an `Oracle` given to each call.

Modelled from the spec are the provisioner sets (a stake for each key, with
`replace_stake` and `remove_stake` returning the entry they replace or
remove, and `ContextProvisioners` with its snapshot of the set before the
last update), the ledger and mempool of the database with the calls that
read and write them, and the VM's calls on its finalized root; after a
restart the VM's state root is the finalized one, as the comment before
`get_state_root` in `init_consensus` says.
-/

namespace RuskProofs.Chain

open RuskProofs.Wire (Label)

abbrev Hash := Nat

abbrev PublicKey := Nat

abbrev Stake := Nat

/-- How a call ends when it does not return `Ok`: with an `anyhow::Error`, or
with a panic (`panic!`, `assert_eq!`, `unreachable!`, `unimplemented!`). -/
inductive Failure where
  | error (msg : String)
  | panic (msg : String)
deriving DecidableEq

abbrev Res (α : Type) := Except Failure α

@[simp] theorem Res.ok_bind (a : α) (f : α → Res β) : (Except.ok a : Res α) >>= f = f a := rfl

theorem Res.bind_eq_ok {x : Res α} {f : α → Res β} {b : β} :
    x >>= f = .ok b ↔ ∃ a, x = .ok a ∧ f a = .ok b := by
  cases x <;> simp [bind, Except.bind]

theorem Res.bind_eq_error {x : Res α} {f : α → Res β} {e : Failure} :
    x >>= f = .error e ↔ x = .error e ∨ ∃ a, x = .ok a ∧ f a = .error e := by
  cases x <;> simp [bind, Except.bind]

/-- An answer of a component outside `acceptor.rs`, its error as an
`anyhow::Error`. -/
def external (r : Except String α) : Res α := r.mapError .error

@[simp] theorem external_ok (x : α) : external (.ok x : Except String α) = .ok x := rfl

@[simp] theorem external_error (e : String) :
    external (.error e : Except String α) = .error (.error e) := rfl

/-- A call that fails with `fault`, if any, and otherwise returns `x`. -/
def guarded (fault : Option String) (x : α) : Res α :=
  match fault with
  | some e => .error (.error e)
  | none => .ok x

@[simp] theorem guarded_none (x : α) : guarded none x = .ok x := rfl

theorem guarded_eq_ok {fault : Option String} {x y : α} (h : guarded fault x = .ok y) :
    fault = none ∧ y = x := by
  cases fault with
  | none => cases h; exact ⟨rfl, rfl⟩
  | some e => cases h

theorem guarded_ne_panic (fault : Option String) (x : α) (m : String) :
    guarded fault x ≠ .error (.panic m) := by
  cases fault <;> simp [guarded]

/-- The header fields the acceptor reads: `generatorBlsPubkey` holds the bytes
of `generator_bls_pubkey`, `missedGenerators` those of
`failed_iterations.to_missed_generators_bytes()`. -/
structure Header where
  height : Nat
  hash : Hash
  stateHash : Hash
  eventHash : Hash
  generatorBlsPubkey : Nat
  missedGenerators : List Nat
deriving DecidableEq

structure ContractCall where
  contract : List UInt8
  fnName : String
  calldata : Nat
deriving DecidableEq

structure Transaction where
  call : Option ContractCall
deriving DecidableEq

structure SpentTransaction where
  inner : Transaction
  err : Option String
deriving DecidableEq

structure Block where
  header : Header
  txs : List Transaction
deriving DecidableEq

structure BlockWithLabel where
  block : Block
  label : Label
deriving DecidableEq

def BlockWithLabel.isFinal (b : BlockWithLabel) : Bool := decide (b.label = .final)

abbrev Provisioners := PublicKey → Option Stake

def Provisioners.replaceStake (p : Provisioners) (pk : PublicKey) (stake : Stake) :
    Option Stake × Provisioners :=
  (p pk, Function.update p pk (some stake))

def Provisioners.removeStake (p : Provisioners) (pk : PublicKey) : Option Stake × Provisioners :=
  (p pk, Function.update p pk none)

structure ContextProvisioners where
  current : Provisioners
  previous : Option Provisioners

namespace ContextProvisioners

def new (current : Provisioners) : ContextProvisioners := ⟨current, none⟩

def removePrevious (pl : ContextProvisioners) : ContextProvisioners :=
  { pl with previous := none }

def updateAndSwap (pl : ContextProvisioners) (new : Provisioners) : ContextProvisioners :=
  ⟨new, some pl.current⟩

def update (_ : ContextProvisioners) (new : Provisioners) : ContextProvisioners := ⟨new, none⟩

def applyChanges (pl : ContextProvisioners) (changes : List (PublicKey × Option Stake)) :
    ContextProvisioners :=
  if changes.isEmpty then pl
  else
    { pl with
      previous := some (changes.foldl (fun p c =>
        match c.2 with
        | some stake => (p.replaceStake c.1 stake).2
        | none => (p.removeStake c.1).2) pl.current) }

end ContextProvisioners

inductive DbCall where
  | getBlockExists
  | opWrite
  | storeBlock
  | fetchBlockByHeight (height : Nat)
  | fetchBlockLabelByHeight (height : Nat)
  | deleteBlock (height : Nat)
  | addTx (tx : Transaction)
  | fetchBlock (hash : Hash)
deriving DecidableEq

inductive VmCall where
  | finalizeState
  | revertToFinalized
  | getFinalizedStateRoot
  | getStateRoot
deriving DecidableEq

/-- What the components outside `acceptor.rs` answer during one call of the
acceptor: `headerChecks` for the checks of `Validator::execute_checks` beyond
the height (an error, or the number of previous non-attested iterations),
`accept` for `vm.accept(blk)` (the spent transactions, the state root and the
event hash), `newWithKeys` for `Task::new_with_keys`, and the faults of the
VM and database calls. -/
structure Oracle where
  headerChecks : Except String UInt8
  accept : Except String (List SpentTransaction × Hash × Hash)
  getProvisioner : PublicKey → Except String (Option Stake)
  getProvisioners : Hash → Except String Provisioners
  getChangedProvisioners : Hash → Except String (List (PublicKey × Option Stake))
  revert : Hash → Except String Hash
  newWithKeys : Except String Unit
  vmFault : VmCall → Option String
  dbFault : DbCall → Option String

/-- Modelled from the spec: the ledger of the database, the block and the
label stored at each height, and the transactions of the mempool. -/
structure Db where
  ledger : AList (fun _ : Nat => Block × Label)
  mempool : List Transaction

/-- The part of the VM state the acceptor depends on: the root pinned by
`finalize_state`. -/
structure Vm where
  finalizedRoot : Hash

/-- The constants and decoders that `acceptor.rs` takes from elsewhere:
`CONSENSUS_ROLLING_FINALITY_THRESHOLD`, `DUSK_KEY`, `try_into` from the bytes
of a BLS public key, and the public key of an `rkyv`-encoded `Stake` or
`Unstake`. -/
structure Params where
  rollingFinalityThreshold : Nat
  duskKey : PublicKey
  publicKeyFromBytes : Nat → Option PublicKey
  stakeKey : Nat → Option PublicKey
  unstakeKey : Nat → Option PublicKey

structure Acceptor where
  tip : BlockWithLabel
  provisionersList : ContextProvisioners
  db : Db
  vm : Vm

namespace Db

variable (t : Db) (o : Oracle)

def fetchBlockByHeight (height : Nat) : Res (Option Block) :=
  guarded (o.dbFault (.fetchBlockByHeight height)) ((t.ledger.lookup height).map (·.1))

def fetchBlockLabelByHeight (height : Nat) : Res (Option (Hash × Label)) :=
  guarded (o.dbFault (.fetchBlockLabelByHeight height))
    ((t.ledger.lookup height).map fun e => (e.1.header.hash, e.2))

def fetchBlock (hash : Hash) : Res (Option Block) :=
  guarded (o.dbFault (.fetchBlock hash))
    ((t.ledger.entries.find? fun e => e.2.1.header.hash == hash).map (·.2.1))

def getBlockExists (hash : Hash) : Res Bool :=
  guarded (o.dbFault .getBlockExists) (t.ledger.entries.any fun e => e.2.1.header.hash == hash)

def storeBlock (header : Header) (txs : List SpentTransaction) (label : Label) : Res Db :=
  guarded (o.dbFault .storeBlock)
    { t with ledger := t.ledger.insert header.height (⟨header, txs.map (·.inner)⟩, label) }

def deleteBlock (b : Block) : Res Db :=
  guarded (o.dbFault (.deleteBlock b.header.height)) { t with ledger := t.ledger.erase b.header.height }

def addTx (tx : Transaction) : Res Db :=
  guarded (o.dbFault (.addTx tx)) { t with mempool := t.mempool.insert tx }

end Db

namespace Vm

def finalizeState (vm : Vm) (o : Oracle) (stateHash : Hash) : Res Vm :=
  guarded (o.vmFault .finalizeState) { vm with finalizedRoot := stateHash }

variable (vm : Vm) (o : Oracle)

def revertToFinalized : Res Hash := guarded (o.vmFault .revertToFinalized) vm.finalizedRoot

def getFinalizedStateRoot : Res Hash :=
  guarded (o.vmFault .getFinalizedStateRoot) vm.finalizedRoot

def getStateRoot : Res Hash := guarded (o.vmFault .getStateRoot) vm.finalizedRoot

end Vm

theorem Db.getBlockExists_of_lookup {t : Db} {h : Nat} {e : Block × Label}
    (he : t.ledger.lookup h = some e) (o : Oracle) (hfault : o.dbFault .getBlockExists = none) :
    t.getBlockExists o e.1.header.hash = .ok true := by
  have hmem : (⟨h, e⟩ : Sigma fun _ : Nat => Block × Label) ∈ t.ledger.entries :=
    AList.mem_lookup_iff.mp he
  simp only [Db.getBlockExists, hfault, guarded_none, Except.ok.injEq, List.any_eq_true]
  exact ⟨_, hmem, beq_self_eq_true _⟩

end RuskProofs.Chain
