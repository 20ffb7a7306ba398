import RuskProofs.Chain.Basic

/-!
The provisioner step of `try_accept_block`. `changed_provisioners` lists the
keys a block touches (its generator, the Dusk key, the generators it slashes
and the stakers of its stake calls), `selective_update` refreshes exactly those
keys from the VM, and any error of it falls back to reloading every
provisioner from the VM. Both paths end at the VM's provisioner set.
-/

namespace RuskProofs.Chain

inductive ProvisionerChange where
  | stake (pk : PublicKey)
  | unstake (pk : PublicKey)
  | slash (pk : PublicKey)
  | reward (pk : PublicKey)
deriving DecidableEq

namespace ProvisionerChange

def intoPublicKey : ProvisionerChange → PublicKey
  | .slash pk => pk
  | .unstake pk => pk
  | .stake pk => pk
  | .reward pk => pk

def isStake : ProvisionerChange → Bool
  | .stake _ => true
  | _ => false

end ProvisionerChange

def stake : String := "stake"

def unstake : String := "unstake"

/-- `stake_contract_id()`: the byte `2` and 31 zero bytes. -/
def stakeContract : List UInt8 := 2 :: List.replicate 31 0

/-- A decoding that `map_err`s its failure into `Cannot deserialize ..`. -/
def deserialize (what : String) : Option α → Res α
  | some x => .ok x
  | none => .error (.error ("Cannot deserialize " ++ what))

theorem deserialize_ne_panic (what : String) (x : Option α) (m : String) :
    deserialize what x ≠ .error (.panic m) := by
  cases x <;> simp [deserialize]

theorem mapM_ne_panic {f : α → Res β} {m : String} :
    ∀ xs : List α, (∀ x ∈ xs, f x ≠ .error (.panic m)) → xs.mapM f ≠ .error (.panic m)
  | [], _ => by rw [List.mapM_nil]; exact fun h => by cases h
  | x :: xs, hf => by
    rw [List.mapM_cons, ne_eq, Res.bind_eq_error, not_or]
    refine ⟨hf x (List.mem_cons_self x xs), ?_⟩
    rintro ⟨y, -, h⟩
    rw [Res.bind_eq_error] at h
    rcases h with h | ⟨ys, -, h⟩
    · exact mapM_ne_panic xs (fun y hy => hf y (List.mem_cons_of_mem x hy)) h
    · cases h

section
variable (cfg : Params)

def parseStakeCall (fnName : String) (calldata : Nat) : Res ProvisionerChange :=
  if fnName = unstake then .unstake <$> deserialize "unstake rkyv" (cfg.unstakeKey calldata)
  else if fnName = stake then .stake <$> deserialize "stake rkyv" (cfg.stakeKey calldata)
  else .error (.panic ("internal error: entered unreachable code: Parsing unexpected method: " ++
    fnName))

/-- The function name and calldata of a call to `stake` or `unstake` of the
stake contract. -/
def stakeCall (t : SpentTransaction) : Option (String × Nat) :=
  match t.inner.call with
  | some c =>
    if c.contract = stakeContract ∧ (c.fnName = stake ∨ c.fnName = unstake) then
      some (c.fnName, c.calldata)
    else none
  | none => none

def changedProvisioners (blk : Block) (txs : List SpentTransaction) :
    Res (List ProvisionerChange) := do
  let generator ← deserialize "bytes" (cfg.publicKeyFromBytes blk.header.generatorBlsPubkey)
  let reward := ProvisionerChange.reward generator
  let duskReward := ProvisionerChange.reward cfg.duskKey
  let slashed ← blk.header.missedGenerators.mapM fun bytes =>
    deserialize "bytes" (cfg.publicKeyFromBytes bytes)
  let stakeCalls := (txs.filter fun t => t.err.isNone).filterMap stakeCall
  let stakeChanges ← stakeCalls.mapM fun (f, data) => parseStakeCall cfg f data
  pure ([reward, duskReward] ++ slashed.map .slash ++ stakeChanges)

/-- The loop of `selective_update` over the changes, on the clone `new_prov`
of the current provisioners. -/
def applyProvisionerChanges (o : Oracle) :
    Provisioners → List ProvisionerChange → Res Provisioners
  | newProv, [] => .ok newProv
  | newProv, change :: changes => do
    let isStake := change.isStake
    let pk := change.intoPublicKey
    match ← external (o.getProvisioner pk) with
    | some stake =>
      let (replaced, newProv) := newProv.replaceStake pk stake
      if replaced.isNone && !isStake then .error (.error "Replaced a not existing stake")
      else applyProvisionerChanges o newProv changes
    | none =>
      let (removed, newProv) := newProv.removeStake pk
      match removed with
      | none => .error (.error "Removed a not existing stake")
      | some _ => applyProvisionerChanges o newProv changes

def selectiveUpdate (blk : Block) (txs : List SpentTransaction) (o : Oracle)
    (pl : ContextProvisioners) : Res ContextProvisioners := do
  let changedProv ← changedProvisioners cfg blk txs
  if changedProv.isEmpty then pure pl.removePrevious
  else
    let newProv ← applyProvisionerChanges o pl.current changedProv
    pure (pl.updateAndSwap newProv)

/-- The provisioner step of `try_accept_block`: `selective_update`, and on an
error of it a reload of every provisioner from `vm.get_provisioners`. -/
def updateProvisioners (pl : ContextProvisioners) (blk : Block) (txs : List SpentTransaction)
    (o : Oracle) : Res ContextProvisioners :=
  match selectiveUpdate cfg blk txs o pl with
  | .error (.error _) => do
    let newProv ← external (o.getProvisioners blk.header.stateHash)
    pure (pl.updateAndSwap newProv)
  | r => r

theorem parseStakeCall_ne_panic {fnName : String} (calldata : Nat)
    (hname : fnName = stake ∨ fnName = unstake) (m : String) :
    parseStakeCall cfg fnName calldata ≠ .error (.panic m) := by
  unfold parseStakeCall
  split_ifs with hu hs
  · cases h : cfg.unstakeKey calldata <;> simp [deserialize, h]
  · cases h : cfg.stakeKey calldata <;> simp [deserialize, h]
  · exact absurd hname (by simp [hu, hs])

theorem stakeCall_name {t : SpentTransaction} {f : String} {data : Nat}
    (h : stakeCall t = some (f, data)) : f = stake ∨ f = unstake := by
  unfold stakeCall at h
  split at h
  · split_ifs at h with hc
    cases h
    exact hc.2
  · cases h

/-- The `unreachable!` of `parse_stake_call` is unreachable: only calls to
`stake` and `unstake` are parsed. -/
theorem changedProvisioners_ne_panic (blk : Block) (txs : List SpentTransaction) (m : String) :
    changedProvisioners cfg blk txs ≠ .error (.panic m) := by
  simp only [changedProvisioners, ne_eq, Res.bind_eq_error, not_or, not_exists, not_and]
  refine ⟨deserialize_ne_panic _ _ m, fun _ _ => ⟨mapM_ne_panic _ fun _ _ =>
    deserialize_ne_panic _ _ m,
    fun _ _ => ⟨mapM_ne_panic _ fun c hc => ?_, fun _ _ h => by cases h⟩⟩⟩
  obtain ⟨t, -, ht⟩ := List.mem_filterMap.mp hc
  exact parseStakeCall_ne_panic cfg _ (stakeCall_name ht) m

theorem changedProvisioners_ne_nil {blk : Block} {txs : List SpentTransaction}
    {cs : List ProvisionerChange} (h : changedProvisioners cfg blk txs = .ok cs) : cs ≠ [] := by
  simp only [changedProvisioners, Res.bind_eq_ok] at h
  obtain ⟨_, -, _, -, _, -, h⟩ := h
  cases h
  simp

end

theorem applyProvisionerChanges_ne_panic (o : Oracle) (m : String) :
    ∀ changes newProv, applyProvisionerChanges o newProv changes ≠ .error (.panic m)
  | [], _ => by simp [applyProvisionerChanges]
  | change :: changes, newProv => by
    simp only [applyProvisionerChanges, ne_eq, Res.bind_eq_error, not_or, not_exists, not_and]
    refine ⟨by cases o.getProvisioner change.intoPublicKey <;> simp, fun s _ => ?_⟩
    rcases s with _ | s
    · cases hn : newProv change.intoPublicKey with
      | none => simp [Provisioners.removeStake, hn]
      | some _ => simpa [Provisioners.removeStake, hn] using
          applyProvisionerChanges_ne_panic o m changes _
    · by_cases hc : (newProv change.intoPublicKey).isNone && !change.isStake
      · simp [Provisioners.replaceStake, hc]
      · simpa [Provisioners.replaceStake, hc] using applyProvisionerChanges_ne_panic o m changes _

/-- Every key the loop visits ends with the VM's stake for it, whatever order
and repetitions the changes come in; every other key keeps its stake. -/
theorem applyProvisionerChanges_eq {o : Oracle} {V : Provisioners}
    (hget : ∀ pk s, o.getProvisioner pk = .ok s → s = V pk) :
    ∀ changes newProv q, applyProvisionerChanges o newProv changes = .ok q →
      ∀ pk, q pk = if pk ∈ changes.map ProvisionerChange.intoPublicKey then V pk else newProv pk
  | [], newProv, q, h, pk => by cases h; simp
  | change :: changes, newProv, q, h, pk => by
    simp only [applyProvisionerChanges, Res.bind_eq_ok] at h
    obtain ⟨s, hs, h⟩ := h
    have hs' : s = V change.intoPublicKey := by
      cases hr : o.getProvisioner change.intoPublicKey with
      | error e => rw [hr] at hs; cases hs
      | ok r => rw [hr] at hs; cases hs; exact hget _ _ hr
    have step : ∀ r : Option Stake, r = V change.intoPublicKey →
        applyProvisionerChanges o (Function.update newProv change.intoPublicKey r) changes = .ok q →
        q pk = if pk ∈ (change :: changes).map ProvisionerChange.intoPublicKey then V pk
          else newProv pk := by
      intro r hr hq
      rw [applyProvisionerChanges_eq hget changes _ q hq pk]
      by_cases hpk : pk = change.intoPublicKey
      · subst hpk; simp [hr]
      · simp [hpk, Function.update_noteq hpk]
    rcases s with _ | s
    · cases hn : newProv change.intoPublicKey with
      | none => simp [Provisioners.removeStake, hn] at h
      | some _ =>
        simp only [Provisioners.removeStake, hn] at h
        exact step none hs' h
    · simp only [Provisioners.replaceStake] at h
      split_ifs at h
      exact step (some s) hs' h

section
variable (cfg : Params)

/-- A selective update that succeeds ends at the VM's provisioner set, when
that set differs from the current one only at the keys the block touches. -/
theorem selectiveUpdate_eq {blk : Block} {txs : List SpentTransaction} {o : Oracle}
    {pl pl' : ContextProvisioners} {V : Provisioners}
    (hview : ∀ cs, changedProvisioners cfg blk txs = .ok cs →
      ∀ pk, pk ∉ cs.map ProvisionerChange.intoPublicKey → V pk = pl.current pk)
    (hget : ∀ pk s, o.getProvisioner pk = .ok s → s = V pk)
    (h : selectiveUpdate cfg blk txs o pl = .ok pl') : pl' = ⟨V, some pl.current⟩ := by
  simp only [selectiveUpdate, Res.bind_eq_ok] at h
  obtain ⟨cs, hcs, h⟩ := h
  have hne : cs.isEmpty = false := by
    cases cs
    · exact absurd rfl (changedProvisioners_ne_nil cfg hcs)
    · rfl
  simp only [hne, Bool.false_eq_true, ↓reduceIte, Res.bind_eq_ok] at h
  obtain ⟨q, hq, h⟩ := h
  cases h
  have hV : q = V := funext fun pk => by
    rw [applyProvisionerChanges_eq hget cs _ q hq pk]
    split_ifs with hpk
    · rfl
    · exact (hview cs hcs pk hpk).symm
  rw [hV]
  rfl

theorem selectiveUpdate_ne_panic (blk : Block) (txs : List SpentTransaction) (o : Oracle)
    (pl : ContextProvisioners) (m : String) :
    selectiveUpdate cfg blk txs o pl ≠ .error (.panic m) := by
  simp only [selectiveUpdate, ne_eq, Res.bind_eq_error, not_or, not_exists, not_and]
  refine ⟨changedProvisioners_ne_panic cfg blk txs m, fun cs _ => ?_⟩
  split
  · exact fun h => by cases h
  · rw [Res.bind_eq_error, not_or, not_exists]
    exact ⟨applyProvisionerChanges_ne_panic o m _ _, fun _ h => by cases h.2⟩

/-- The selective update and the full reload agree: when the VM's provisioner
set after the block differs from the current one only at the keys the block
touches, the provisioner step leaves that set current and the former one as
the previous snapshot, whichever path it takes. -/
theorem selective_update_agrees_with_reload (pl : ContextProvisioners) (blk : Block)
    (txs : List SpentTransaction) (o : Oracle) (V : Provisioners)
    (hview : ∀ cs, changedProvisioners cfg blk txs = .ok cs →
      ∀ pk, pk ∉ cs.map ProvisionerChange.intoPublicKey → V pk = pl.current pk)
    (hget : ∀ pk s, o.getProvisioner pk = .ok s → s = V pk)
    (hreload : o.getProvisioners blk.header.stateHash = .ok V) :
    updateProvisioners cfg pl blk txs o = .ok ⟨V, some pl.current⟩ ∧
      ∀ pl', selectiveUpdate cfg blk txs o pl = .ok pl' → pl' = ⟨V, some pl.current⟩ := by
  refine ⟨?_, fun pl' h => selectiveUpdate_eq cfg hview hget h⟩
  unfold updateProvisioners
  cases hs : selectiveUpdate cfg blk txs o pl with
  | ok pl' => rw [selectiveUpdate_eq cfg hview hget hs]
  | error e =>
    cases e with
    | error msg => simp [hreload, ContextProvisioners.updateAndSwap]
    | panic msg => exact absurd hs (selectiveUpdate_ne_panic cfg blk txs o pl msg)

end

/-- A rolling finality window of 3 heights, the Dusk key `0`, and keys that
decode to themselves. -/
def sampleParams : Params := ⟨3, 0, some, some, some⟩

/-- A block at `height` whose hashes are all `height`. -/
def sampleBlock (height : Nat) : Block := ⟨⟨height, height, height, height, 0, []⟩, []⟩

/-- Answers under which nothing fails: the header checks return `pni`, the VM
accepts the block with state root and event hash `root`, and no one has a
stake. -/
def sampleOracle (pni : UInt8) (root : Hash) : Oracle where
  headerChecks := .ok pni
  accept := .ok ([], root, root)
  getProvisioner _ := .ok none
  getProvisioners _ := .ok fun _ => none
  getChangedProvisioners _ := .ok []
  revert h := .ok h
  newWithKeys := .ok ()
  vmFault _ := none
  dbFault _ := none

/-- A generator whose stake grows from `7` to `10` while the Dusk key keeps its
stake of `1`: the selective update and the provisioner step end at the VM's
set. -/
theorem selective_update_agrees_for_rewarded_generator :
    let P : Provisioners := Function.update (Function.update (fun _ => none) 5 (some 7)) 0 (some 1)
    let V : Provisioners := Function.update P 5 (some 10)
    let blk : Block := ⟨⟨1, 1, 1, 1, 5, []⟩, []⟩
    let o : Oracle := { sampleOracle 0 1 with
      getProvisioner := fun pk => .ok (V pk), getProvisioners := fun _ => .ok V }
    (∀ cs, changedProvisioners sampleParams blk [] = .ok cs →
      ∀ pk, pk ∉ cs.map ProvisionerChange.intoPublicKey → V pk = (ContextProvisioners.new P).current pk) ∧
    (∀ pk s, o.getProvisioner pk = .ok s → s = V pk) ∧
    o.getProvisioners blk.header.stateHash = .ok V ∧
    updateProvisioners sampleParams (.new P) blk [] o = .ok ⟨V, some P⟩ ∧
    (∀ pl', selectiveUpdate sampleParams blk [] o (.new P) = .ok pl' → pl' = ⟨V, some P⟩) := by
  intro P V blk o
  have hview : ∀ cs, changedProvisioners sampleParams blk [] = .ok cs →
      ∀ pk, pk ∉ cs.map ProvisionerChange.intoPublicKey →
        V pk = (ContextProvisioners.new P).current pk := by
    intro cs hcs pk hpk
    have hchanged : changedProvisioners sampleParams blk [] = .ok [.reward 5, .reward 0] := rfl
    rw [hchanged] at hcs
    cases hcs
    exact Function.update_noteq (fun h => hpk (by simp [h, ProvisionerChange.intoPublicKey])) _ _
  have hget : ∀ pk s, o.getProvisioner pk = .ok s → s = V pk := fun _ _ h => by cases h; rfl
  exact ⟨hview, hget, rfl,
    selective_update_agrees_with_reload sampleParams (.new P) blk [] o V hview hget rfl⟩

end RuskProofs.Chain
