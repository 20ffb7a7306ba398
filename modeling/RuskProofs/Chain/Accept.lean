import RuskProofs.Chain.Provisioners

/-!
`rolling_finality`, `try_accept_block`, `update_tip`, `try_revert` and
`init_consensus` of `acceptor.rs`. Each call returns the acceptor with its
result. A database transaction whose closure fails is rolled back, so its
writes are lost with the error; what a call changed after a commit (the
ledger, the tip, the provisioners, the VM) stays changed when it later returns
an error. What `try_accept_block` does that no modelled step reads is left
out: the database clean-up after the commit (old candidates, and the mempool
transactions the block includes or whose nullifiers it spends), the pruning
of future messages, and the metrics, with the `u64` subtraction of the tip's
timestamp from the block's that only feeds the log.
-/

namespace RuskProofs.Chain

open RuskProofs.Wire (Label)

section
variable (cfg : Params)

/-- Modelled from the spec: `verify_block_header` requires the candidate to
extend the tip by one height, and the other checks of
`Validator::execute_checks` answer with an error or the PNI. -/
def verifyBlockHeader (prevHeader header : Header) (checks : Except String UInt8) : Res UInt8 :=
  if header.height = prevHeader.height + 1 then external checks
  else .error (.error "Invalid block height")

/-- The loop `for h in (target..current).rev()` of `rolling_finality`:
`scanLabels t o target current` reads the labels from `current - 1` down to
`target`. -/
def scanLabels (t : Db) (o : Oracle) (target : Nat) : Nat → Res Label
  | 0 => .ok .final
  | h + 1 =>
    if h < target then .ok .final
    else do
      match ← t.fetchBlockLabelByHeight o h with
      | none => .error (.panic ("Cannot find block label for height: " ++ toString h))
      | some (_, .final) => .ok .final
      | some (_, .accepted) => .ok .attested
      | some (_, .attested) => scanLabels t o target h

def rollingFinality (pni : UInt8) (tipIsFinal : Bool) (blk : Block) (t : Db) (o : Oracle) :
    Res Label :=
  let attested := pni == 0
  match attested, tipIsFinal with
  | true, true => .ok .final
  | false, _ => .ok .accepted
  | true, false =>
    let current := blk.header.height
    let target := current - cfg.rollingFinalityThreshold
    scanLabels t o target current

def acceptTransaction (tip : BlockWithLabel) (pni : UInt8) (blk : Block) (o : Oracle) (t : Db) :
    Res (Db × List SpentTransaction × Label) := do
  let (txs, stateRoot, eventHash) ← external o.accept
  if blk.header.stateHash ≠ stateRoot then
    .error (.panic "assertion failed: header.state_hash == verification_output.state_root")
  else if blk.header.eventHash ≠ eventHash then
    .error (.panic "assertion failed: header.event_hash == verification_output.event_hash")
  else
    let label ← rollingFinality cfg pni tip.isFinal blk t o
    let t ← t.storeBlock o blk.header txs label
    pure (t, txs, label)

/-- What `try_accept_block` does once its database transaction has committed:
the provisioner step, the tip update and, for a final block, `finalize_state`. -/
def acceptCommitted (a : Acceptor) (blk : Block) (txs : List SpentTransaction) (label : Label)
    (o : Oracle) : Acceptor × Res Label :=
  match updateProvisioners cfg a.provisionersList blk txs o with
  | .error e => (a, .error e)
  | .ok pl =>
    let a := { a with provisionersList := pl, tip := ⟨blk, label⟩ }
    if a.tip.isFinal then
      match a.vm.finalizeState o blk.header.stateHash with
      | .error e => (a, .error e)
      | .ok vm => ({ a with vm }, .ok label)
    else (a, .ok label)

def tryAcceptBlock (a : Acceptor) (blk : Block) (o : Oracle) : Acceptor × Res Label :=
  match verifyBlockHeader a.tip.block.header blk.header o.headerChecks with
  | .error e => (a, .error e)
  | .ok pni =>
    match acceptTransaction cfg a.tip pni blk o a.db with
    | .error e => (a, .error e)
    | .ok (db, txs, label) => acceptCommitted cfg { a with db } blk txs label o

end

def updateTip (a : Acceptor) (blk : Block) (label : Label) (o : Oracle) : Acceptor × Res Unit :=
  match a.db.getBlockExists o blk.header.hash with
  | .error e => (a, .error e)
  | .ok false => (a, .error (.error "could not find block"))
  | .ok true =>
    -- the writes of `MD_HASH_KEY` and `MD_STATE_ROOT_KEY`
    match guarded (o.dbFault .opWrite) () with
    | .error e => (a, .error e)
    | .ok () =>
      match external (o.getProvisioners blk.header.stateHash) with
      | .error e => (a, .error e)
      | .ok currentProv =>
        let a := { a with provisionersList := a.provisionersList.update currentProv }
        match external (o.getChangedProvisioners blk.header.stateHash) with
        | .error e => (a, .error e)
        | .ok changes =>
          ({ a with provisionersList := a.provisionersList.applyChanges changes,
                    tip := ⟨blk, label⟩ }, .ok ())

inductive RevertTarget where
  | commit (stateHash : Hash)
  | lastFinalizedState
  | lastEpoch
deriving DecidableEq

def targetStateHash (vm : Vm) (o : Oracle) : RevertTarget → Res Hash
  | .lastFinalizedState => vm.revertToFinalized o
  | .commit stateHash => do
    let stateHash ← external (o.revert stateHash)
    let _ ← vm.getFinalizedStateRoot o
    pure stateHash
  | .lastEpoch => .error (.panic "not implemented")

def resubmit (o : Oracle) (txs : List Transaction) (t : Db) : Db :=
  txs.foldl (fun t tx => match t.addTx o tx with
    | .ok t' => t'
    | .error _ => t) t

/-- The closure of the database transaction of `try_revert`: the loop
`while height != 0` deleting blocks from the tip down to the first one whose
state hash is the target, and giving their transactions back to the mempool,
where an error of `add_tx` is only logged. -/
def revertWalk (o : Oracle) (target : Hash) : Db → Nat → Res (Db × Block × Label)
  | _, 0 => .error (.error "not found")
  | t, height + 1 => do
    match ← t.fetchBlockByHeight o (height + 1) with
    | none => .error (.error "could not fetch block")
    | some b =>
      match ← t.fetchBlockLabelByHeight o b.header.height with
      | none => .error (.error "could not fetch block label")
      | some (_, label) =>
        if b.header.stateHash = target then .ok (t, b, label)
        else
          let t ← t.deleteBlock o b
          revertWalk o target (resubmit o b.txs t) height

def tryRevert (a : Acceptor) (target : RevertTarget) (o : Oracle) : Acceptor × Res Unit :=
  let currHeight := a.tip.block.header.height
  match targetStateHash a.vm o target with
  | .error e => (a, .error e)
  | .ok targetStateHash =>
    match revertWalk o targetStateHash a.db currHeight with
    | .error e => (a, .error e)
    | .ok (db, blk, label) =>
      let a := { a with db }
      if blk.header.stateHash ≠ targetStateHash then
        (a, .error (.error "Failed to revert to proper state"))
      else updateTip a blk label o

def initProvisioners (tip : BlockWithLabel) (provisioners : Provisioners) (o : Oracle) :
    Res ContextProvisioners := do
  let pl ← if tip.block.header.height > 0 then
      (ContextProvisioners.new provisioners).applyChanges <$>
        external (o.getChangedProvisioners tip.block.header.stateHash)
    else pure (ContextProvisioners.new provisioners)
  let _ ← external o.newWithKeys
  pure pl

/-- `init_consensus` on the tip, provisioners, database and VM a node starts
with. On an early error no acceptor is built: the result then only carries
the database and the VM, unchanged. -/
def initConsensus (tip : BlockWithLabel) (provisioners : Provisioners) (db : Db) (vm : Vm)
    (o : Oracle) : Acceptor × Res Unit :=
  let tipHeight := tip.block.header.height
  let tipStateHash := tip.block.header.stateHash
  match initProvisioners tip provisioners o with
  | .error e => (⟨tip, .new provisioners, db, vm⟩, .error e)
  | .ok pl =>
    let acc : Acceptor := ⟨tip, pl, db, vm⟩
    match vm.getStateRoot o with
    | .error e => (acc, .error e)
    | .ok stateRoot =>
      if tipHeight > 0 ∧ tipStateHash ≠ stateRoot then tryRevert acc .lastFinalizedState o
      else (acc, .ok ())

/-- The loop `for height in (0..prev_height).rev()` of
`get_latest_final_block`: `latestFinalScan t o h` reads the labels from
`h - 1` down to `0`, an error of `fetch_block_label_by_height` counting as a
label other than `Final`. -/
def latestFinalScan (t : Db) (o : Oracle) : Nat → Res Block
  | 0 => .error (.error "could not find the latest final block")
  | h + 1 =>
    match t.fetchBlockLabelByHeight o h with
    | .ok (some (hash, .final)) =>
      match t.fetchBlock o hash with
      | .ok (some blk) => .ok blk
      | .ok none => .error (.error "could not fetch the latest final block by height")
      | .error e => .error e
    | _ => latestFinalScan t o h

/-- `get_latest_final_block`. The `u64` subtraction giving `prev_height`
panics on a tip at height `0`, as it does in a debug build. -/
def getLatestFinalBlock (a : Acceptor) (o : Oracle) : Res Block :=
  if a.tip.isFinal then .ok a.tip.block
  else if a.tip.block.header.height = 0 then .error (.panic "attempt to subtract with overflow")
  else latestFinalScan a.db o (a.tip.block.header.height - 1)

section
variable (cfg : Params)

theorem Db.fetchBlockLabelByHeight_eq_ok {t : Db} {o : Oracle} {h : Nat}
    {r : Option (Hash × Label)} (hr : t.fetchBlockLabelByHeight o h = .ok r) :
    r = (t.ledger.lookup h).map fun e => (e.1.header.hash, e.2) :=
  (guarded_eq_ok hr).2

theorem Db.fetchBlockByHeight_eq_ok {t : Db} {o : Oracle} {h : Nat} {r : Option Block}
    (hr : t.fetchBlockByHeight o h = .ok r) : r = (t.ledger.lookup h).map (·.1) :=
  (guarded_eq_ok hr).2

theorem scanLabels_final {t : Db} {o : Oracle} {target : Nat} :
    ∀ current, scanLabels t o target current = .ok .final →
      (∀ h, target ≤ h → h < current → ∃ B, t.ledger.lookup h = some (B, .attested)) ∨
      ∃ h B, target ≤ h ∧ h < current ∧ t.ledger.lookup h = some (B, .final) ∧
        ∀ h', h < h' → h' < current → ∃ B, t.ledger.lookup h' = some (B, .attested)
  | 0, _ => .inl fun _ _ h => absurd h (Nat.not_lt_zero _)
  | current + 1, hscan => by
    unfold scanLabels at hscan
    split_ifs at hscan with hlt
    · exact .inl fun h h1 h2 => absurd h1 (by omega)
    obtain ⟨r, hr, hscan⟩ := Res.bind_eq_ok.mp hscan
    have hr := Db.fetchBlockLabelByHeight_eq_ok hr
    rcases hlook : t.ledger.lookup current with _ | ⟨B, label⟩
    · rw [hlook] at hr; subst hr; cases hscan
    rw [hlook] at hr
    subst hr
    cases label with
    | accepted => cases hscan
    | final =>
      exact .inr ⟨current, B, by omega, by omega, hlook, fun h' h1 h2 => absurd h2 (by omega)⟩
    | attested =>
      have extend : ∀ h', h' < current + 1 → (h' < current → ∃ B, t.ledger.lookup h' =
          some (B, .attested)) → ∃ B, t.ledger.lookup h' = some (B, .attested) := by
        intro h' h2 hbelow
        rcases Nat.lt_succ_iff_lt_or_eq.mp h2 with h2 | rfl
        · exact hbelow h2
        · exact ⟨B, hlook⟩
      rcases scanLabels_final current hscan with hall | ⟨h, B', h1, h2, hfin, habove⟩
      · exact .inl fun h' h1 h2 => extend h' h2 (hall h' h1)
      · exact .inr ⟨h, B', h1, by omega, hfin, fun h' h3 h4 => extend h' h4 (habove h' h3)⟩

theorem scanLabels_ne_panic {t : Db} {o : Oracle} {target : Nat} (m : String) :
    ∀ current, (∀ h, target ≤ h → h < current → (t.ledger.lookup h).isSome) →
      scanLabels t o target current ≠ .error (.panic m)
  | 0, _ => by simp [scanLabels]
  | current + 1, hstored => by
    unfold scanLabels
    split_ifs with hlt
    · simp
    rw [ne_eq, Res.bind_eq_error, not_or, not_exists]
    refine ⟨guarded_ne_panic _ _ m, fun r ⟨hr, hscan⟩ => ?_⟩
    have hr := Db.fetchBlockLabelByHeight_eq_ok hr
    obtain ⟨⟨B, label⟩, hlook⟩ :=
      Option.isSome_iff_exists.mp (hstored current (by omega) (by omega))
    rw [hlook] at hr
    subst hr
    cases label with
    | accepted => cases hscan
    | final => cases hscan
    | attested =>
      exact scanLabels_ne_panic m current (fun h h1 h2 => hstored h h1 (by omega)) hscan

theorem scanLabels_ne_accepted {t : Db} {o : Oracle} {target : Nat} :
    ∀ current, scanLabels t o target current ≠ .ok .accepted
  | 0 => by simp [scanLabels]
  | current + 1 => by
    unfold scanLabels
    split_ifs
    · simp
    rw [ne_eq, Res.bind_eq_ok, not_exists]
    rintro (_ | ⟨_, _ | _ | _⟩) ⟨-, h⟩
    · cases h
    · cases h
    · exact scanLabels_ne_accepted current h
    · cases h

theorem rollingFinality_ok {pni : UInt8} {tipIsFinal : Bool} {blk : Block} {t : Db} {o : Oracle}
    {label : Label} (h : rollingFinality cfg pni tipIsFinal blk t o = .ok label) :
    (label = .accepted ↔ pni ≠ 0) ∧ (label = .attested → tipIsFinal = false) ∧
      (label = .final → tipIsFinal = true ∨
        scanLabels t o (blk.header.height - cfg.rollingFinalityThreshold) blk.header.height =
          .ok .final) := by
  unfold rollingFinality at h
  by_cases hpni : pni = 0
  · cases tipIsFinal <;> simp only [hpni, beq_self_eq_true] at h
    · exact ⟨by simpa [hpni] using fun hl => scanLabels_ne_accepted _ (hl ▸ h), fun _ => rfl,
        fun hl => .inr (hl ▸ h)⟩
    · cases h; simp [hpni]
  · have : (pni == 0) = false := by simpa using hpni
    simp only [this] at h
    cases h
    simp [hpni]

theorem verifyBlockHeader_ok {prev header : Header} {checks : Except String UInt8} {pni : UInt8}
    (h : verifyBlockHeader prev header checks = .ok pni) :
    header.height = prev.height + 1 ∧ checks = .ok pni := by
  unfold verifyBlockHeader at h
  split_ifs at h with hh
  cases checks <;> cases h
  exact ⟨hh, rfl⟩

theorem acceptTransaction_ok {tip : BlockWithLabel} {pni : UInt8} {blk : Block} {o : Oracle}
    {t db : Db} {txs : List SpentTransaction} {label : Label}
    (h : acceptTransaction cfg tip pni blk o t = .ok (db, txs, label)) :
    rollingFinality cfg pni tip.isFinal blk t o = .ok label ∧
      db.ledger = t.ledger.insert blk.header.height (⟨blk.header, txs.map (·.inner)⟩, label) := by
  obtain ⟨⟨txs', stateRoot, eventHash⟩, -, h⟩ := Res.bind_eq_ok.mp h
  simp only at h
  split_ifs at h
  obtain ⟨label', hlabel, h⟩ := Res.bind_eq_ok.mp h
  obtain ⟨db', hstore, h⟩ := Res.bind_eq_ok.mp h
  cases h
  exact ⟨hlabel, by rw [(guarded_eq_ok hstore).2]⟩

/-- Everything `try_accept_block` can do: fail before its database commit,
changing nothing, or commit and go on with `acceptCommitted`. -/
theorem tryAcceptBlock_cases (a : Acceptor) (blk : Block) (o : Oracle) :
    (∃ e, tryAcceptBlock cfg a blk o = (a, .error e)) ∨
      ∃ pni db txs label, verifyBlockHeader a.tip.block.header blk.header o.headerChecks = .ok pni ∧
        acceptTransaction cfg a.tip pni blk o a.db = .ok (db, txs, label) ∧
        tryAcceptBlock cfg a blk o = acceptCommitted cfg { a with db } blk txs label o := by
  unfold tryAcceptBlock
  split
  · exact .inl ⟨_, rfl⟩
  · next pni hv =>
    split
    · exact .inl ⟨_, rfl⟩
    · next db txs label ht => exact .inr ⟨pni, db, txs, label, hv, ht, rfl⟩

theorem acceptCommitted_ok {a : Acceptor} {blk : Block} {txs : List SpentTransaction}
    {label l : Label} {o : Oracle} (h : (acceptCommitted cfg a blk txs label o).2 = .ok l) :
    l = label ∧ ∃ pl, updateProvisioners cfg a.provisionersList blk txs o = .ok pl ∧
      (acceptCommitted cfg a blk txs label o).1 =
        { a with provisionersList := pl, tip := ⟨blk, label⟩,
                 vm := if label = .final then ⟨blk.header.stateHash⟩ else a.vm } := by
  unfold acceptCommitted at h ⊢
  cases hu : updateProvisioners cfg a.provisionersList blk txs o with
  | error e => rw [hu] at h; cases h
  | ok pl =>
    simp only [hu, BlockWithLabel.isFinal, decide_eq_true_eq] at h ⊢
    by_cases hf : label = .final
    · subst hf
      cases hv : o.vmFault .finalizeState with
      | some e => simp [Vm.finalizeState, guarded, hv] at h
      | none =>
        simp only [Vm.finalizeState, guarded, hv, if_pos] at h ⊢
        cases h
        exact ⟨rfl, pl, rfl, rfl⟩
    · rw [if_neg hf] at h ⊢
      rw [if_neg hf]
      cases h
      exact ⟨rfl, pl, rfl, rfl⟩

theorem acceptCommitted_error {a : Acceptor} {blk : Block} {txs : List SpentTransaction}
    {label : Label} {o : Oracle} {e : Failure}
    (h : (acceptCommitted cfg a blk txs label o).2 = .error e) :
    (updateProvisioners cfg a.provisionersList blk txs o = .error e ∧
        (acceptCommitted cfg a blk txs label o).1 = a) ∨
      ∃ pl, updateProvisioners cfg a.provisionersList blk txs o = .ok pl ∧ label = .final ∧
        a.vm.finalizeState o blk.header.stateHash = .error e ∧
        (acceptCommitted cfg a blk txs label o).1 =
          { a with provisionersList := pl, tip := ⟨blk, label⟩ } := by
  unfold acceptCommitted at h ⊢
  cases hu : updateProvisioners cfg a.provisionersList blk txs o with
  | error e' => rw [hu] at h; cases h; exact .inl ⟨rfl, rfl⟩
  | ok pl =>
    simp only [hu, BlockWithLabel.isFinal, decide_eq_true_eq] at h ⊢
    by_cases hf : label = .final
    · subst hf
      cases hv : o.vmFault .finalizeState with
      | some e' =>
        simp only [Vm.finalizeState, guarded, hv, if_pos] at h ⊢
        cases h
        exact .inr ⟨pl, rfl, trivial, rfl, rfl⟩
      | none => simp [Vm.finalizeState, guarded, hv] at h
    · rw [if_neg hf] at h
      cases h

theorem updateProvisioners_ne_error {pl : ContextProvisioners} {blk : Block}
    {txs : List SpentTransaction} {o : Oracle} {p : Provisioners}
    (hp : o.getProvisioners blk.header.stateHash = .ok p) (msg : String) :
    updateProvisioners cfg pl blk txs o ≠ .error (.error msg) := by
  unfold updateProvisioners
  split
  · simp [hp]
  · next r hr => exact hr msg

end

theorem updateTip_cases (a : Acceptor) (blk : Block) (label : Label) (o : Oracle) :
    (∃ e, updateTip a blk label o = (a, .error e)) ∨
      (∃ p e, updateTip a blk label o =
        ({ a with provisionersList := a.provisionersList.update p }, .error e)) ∨
      ∃ p cs, updateTip a blk label o =
        ({ a with provisionersList := (a.provisionersList.update p).applyChanges cs,
                  tip := ⟨blk, label⟩ }, .ok ()) := by
  unfold updateTip
  rcases a.db.getBlockExists o blk.header.hash with e | _ | _
  · exact .inl ⟨e, rfl⟩
  · exact .inl ⟨_, rfl⟩
  rcases guarded (o.dbFault .opWrite) () with e | _
  · exact .inl ⟨e, rfl⟩
  rcases hp : external (o.getProvisioners blk.header.stateHash) with e | p
  · exact .inl ⟨e, rfl⟩
  rcases external (o.getChangedProvisioners blk.header.stateHash) with e | cs
  · exact .inr (.inl ⟨p, e, rfl⟩)
  · exact .inr (.inr ⟨p, cs, rfl⟩)

theorem updateTip_of_succeeds {a : Acceptor} {blk : Block} {label : Label} {o : Oracle}
    {p : Provisioners} {cs : List (PublicKey × Option Stake)}
    (hexists : a.db.getBlockExists o blk.header.hash = .ok true)
    (hwrite : o.dbFault .opWrite = none) (hp : o.getProvisioners blk.header.stateHash = .ok p)
    (hcs : o.getChangedProvisioners blk.header.stateHash = .ok cs) :
    updateTip a blk label o =
      ({ a with provisionersList := (a.provisionersList.update p).applyChanges cs,
                tip := ⟨blk, label⟩ }, .ok ()) := by
  simp [updateTip, hexists, hwrite, hp, hcs]

theorem resubmit_cons (o : Oracle) (tx : Transaction) (txs : List Transaction) (t : Db) :
    resubmit o (tx :: txs) t = resubmit o txs (match t.addTx o tx with
      | .ok t' => t'
      | .error _ => t) := rfl

@[simp] theorem resubmit_ledger (o : Oracle) (txs : List Transaction) (t : Db) :
    (resubmit o txs t).ledger = t.ledger := by
  induction txs generalizing t with
  | nil => rfl
  | cons tx txs ih =>
    rw [resubmit_cons, ih]
    cases hf : o.dbFault (.addTx tx) <;> simp [Db.addTx, guarded, hf]

theorem lookup_resubmit_erase (o : Oracle) (txs : List Transaction) (t : Db) (k h : Nat) :
    (resubmit o txs { t with ledger := t.ledger.erase k }).ledger.lookup h =
      if h = k then none else t.ledger.lookup h := by
  rw [resubmit_ledger]
  split_ifs with hh
  · subst hh; exact AList.lookup_erase _ _
  · exact AList.lookup_erase_ne hh

theorem mem_resubmit {o : Oracle} (hfault : ∀ tx, o.dbFault (.addTx tx) = none)
    (txs : List Transaction) (t : Db) (tx : Transaction) :
    tx ∈ (resubmit o txs t).mempool ↔ tx ∈ t.mempool ∨ tx ∈ txs := by
  induction txs generalizing t with
  | nil => simp [resubmit]
  | cons y txs ih =>
    rw [resubmit_cons]
    simp only [Db.addTx, hfault, guarded_none, ih, List.mem_insert_iff, List.mem_cons]
    tauto

theorem revertWalk_succ_eq_ok {o : Oracle} {target : Hash} {n : Nat} {t : Db}
    {r : Db × Block × Label} (h : revertWalk o target t (n + 1) = .ok r) :
    ∃ b0 l0, t.ledger.lookup (n + 1) = some (b0, l0) ∧
      ((b0.header.stateHash = target ∧
          ∃ e, t.ledger.lookup b0.header.height = some e ∧ r = (t, b0, e.2)) ∨
        (b0.header.stateHash ≠ target ∧ revertWalk o target
          (resubmit o b0.txs { t with ledger := t.ledger.erase b0.header.height }) n = .ok r)) := by
  obtain ⟨r1, hr, h⟩ := Res.bind_eq_ok.mp h
  rw [Db.fetchBlockByHeight_eq_ok hr] at h
  rcases hlook : t.ledger.lookup (n + 1) with _ | ⟨b0, l0⟩
  · rw [hlook] at h; cases h
  rw [hlook] at h
  obtain ⟨r2, hr2, h⟩ := Res.bind_eq_ok.mp h
  rw [Db.fetchBlockLabelByHeight_eq_ok hr2] at h
  refine ⟨b0, l0, rfl, ?_⟩
  rcases he : t.ledger.lookup b0.header.height with _ | e
  · rw [he] at h; cases h
  rw [he] at h
  simp only [Option.map_some'] at h
  split_ifs at h with hs
  · cases h; exact .inl ⟨hs, e, rfl, rfl⟩
  · obtain ⟨t1, hdel, h⟩ := Res.bind_eq_ok.mp h
    obtain ⟨-, rfl⟩ := guarded_eq_ok hdel
    exact .inr ⟨hs, h⟩

theorem revertWalk_found {o : Oracle} {target : Hash} :
    ∀ n (t t' : Db) (b : Block) (label : Label), revertWalk o target t n = .ok (t', b, label) →
      b.header.stateHash = target ∧ ∃ h l, t'.ledger.lookup h = some (b, l)
  | 0, _, _, _, _, h => by cases h
  | n + 1, t, t', b, label, h => by
    obtain ⟨b0, l0, hlook, ⟨hs, e, -, he⟩ | ⟨-, h⟩⟩ := revertWalk_succ_eq_ok h
    · cases he; exact ⟨hs, n + 1, l0, hlook⟩
    · exact revertWalk_found n _ t' b label h

/-- Everything `try_revert` can do: fail before its database commit, changing
nothing, or commit the walk's deletions and go on with `update_tip`. -/
theorem tryRevert_cases (a : Acceptor) (target : RevertTarget) (o : Oracle) :
    (∃ e, tryRevert a target o = (a, .error e)) ∨
      ∃ h db blk label, targetStateHash a.vm o target = .ok h ∧
        revertWalk o h a.db a.tip.block.header.height = .ok (db, blk, label) ∧
        tryRevert a target o = updateTip { a with db } blk label o := by
  unfold tryRevert
  dsimp only
  split
  · exact .inl ⟨_, rfl⟩
  · next h hh =>
    split
    · exact .inl ⟨_, rfl⟩
    · next db blk label hw =>
      have hs := (revertWalk_found _ _ _ _ _ hw).1
      simp only [hs, ne_eq, not_true_eq_false, ↓reduceIte]
      exact .inr ⟨h, db, blk, label, hh, hw, rfl⟩

theorem initConsensus_cases (tip : BlockWithLabel) (provisioners : Provisioners) (db : Db)
    (vm : Vm) (o : Oracle) :
    (∃ pl r, initConsensus tip provisioners db vm o = (⟨tip, pl, db, vm⟩, r)) ∨
      ∃ pl, initConsensus tip provisioners db vm o = tryRevert ⟨tip, pl, db, vm⟩ .lastFinalizedState o := by
  unfold initConsensus
  cases initProvisioners tip provisioners o with
  | error e => exact .inl ⟨_, _, rfl⟩
  | ok pl =>
    dsimp only
    cases vm.getStateRoot o with
    | error e => exact .inl ⟨pl, _, rfl⟩
    | ok stateRoot =>
      dsimp only
      split_ifs
      · exact .inr ⟨pl, rfl⟩
      · exact .inl ⟨pl, _, rfl⟩

/-- The calls `update_tip` makes succeed. -/
structure UpdateTipSucceeds (o : Oracle) : Prop where
  getBlockExists : o.dbFault .getBlockExists = none
  opWrite : o.dbFault .opWrite = none
  getProvisioners : ∀ h, ∃ p, o.getProvisioners h = .ok p
  getChangedProvisioners : ∀ h, ∃ cs, o.getChangedProvisioners h = .ok cs

section
variable (cfg : Params)

theorem tryAcceptBlock_ok {a : Acceptor} {blk : Block} {o : Oracle} {label : Label}
    (h : (tryAcceptBlock cfg a blk o).2 = .ok label) :
    ∃ pni txs, verifyBlockHeader a.tip.block.header blk.header o.headerChecks = .ok pni ∧
      blk.header.height = a.tip.block.header.height + 1 ∧
      rollingFinality cfg pni a.tip.isFinal blk a.db o = .ok label ∧
      (tryAcceptBlock cfg a blk o).1.db.ledger =
        a.db.ledger.insert blk.header.height (⟨blk.header, txs.map (·.inner)⟩, label) ∧
      updateProvisioners cfg a.provisionersList blk txs o =
        .ok (tryAcceptBlock cfg a blk o).1.provisionersList ∧
      (tryAcceptBlock cfg a blk o).1.tip = ⟨blk, label⟩ ∧
      (tryAcceptBlock cfg a blk o).1.vm =
        if label = .final then ⟨blk.header.stateHash⟩ else a.vm := by
  rcases tryAcceptBlock_cases cfg a blk o with ⟨e, he⟩ | ⟨pni, db, txs, label', hv, ht, he⟩
  · rw [he] at h; cases h
  rw [he] at h ⊢
  obtain ⟨rfl, pl, hu, hstate⟩ := acceptCommitted_ok cfg h
  obtain ⟨hlabel, hdb⟩ := acceptTransaction_ok cfg ht
  rw [hstate]
  exact ⟨pni, txs, hv, (verifyBlockHeader_ok hv).1, hlabel, hdb, hu, rfl, rfl⟩

theorem tryAcceptBlock_error_unchanged {a : Acceptor} {blk : Block} {o : Oracle} {msg : String}
    (hp : ∀ h, ∃ p, o.getProvisioners h = .ok p) (hfin : o.vmFault .finalizeState = none)
    (h : (tryAcceptBlock cfg a blk o).2 = .error (.error msg)) :
    (tryAcceptBlock cfg a blk o).1 = a := by
  rcases tryAcceptBlock_cases cfg a blk o with ⟨e, he⟩ | ⟨pni, db, txs, label, -, -, he⟩
  · rw [he]
  rw [he] at h ⊢
  rcases acceptCommitted_error cfg h with ⟨hu, -⟩ | ⟨pl, -, -, hv, -⟩
  · obtain ⟨p, hp⟩ := hp blk.header.stateHash
    exact absurd hu (updateProvisioners_ne_error cfg hp msg)
  · simp [Vm.finalizeState, hfin] at hv

end

theorem tryRevert_ok {a : Acceptor} {target : RevertTarget} {o : Oracle}
    (h : (tryRevert a target o).2 = .ok ()) :
    ∃ hash db blk label pl, targetStateHash a.vm o target = .ok hash ∧
      revertWalk o hash a.db a.tip.block.header.height = .ok (db, blk, label) ∧
      (tryRevert a target o).1 = { a with db, tip := ⟨blk, label⟩, provisionersList := pl } := by
  rcases tryRevert_cases a target o with ⟨e, he⟩ | ⟨hash, db, blk, label, hh, hw, he⟩
  · rw [he] at h; cases h
  rw [he] at h ⊢
  rcases updateTip_cases { a with db } blk label o with ⟨e, hu⟩ | ⟨p, e, hu⟩ | ⟨p, cs, hu⟩ <;>
    rw [hu] at h ⊢
  · cases h
  · cases h
  · exact ⟨hash, db, blk, label, _, hh, hw, rfl⟩

theorem tryRevert_error_unchanged {a : Acceptor} {target : RevertTarget} {o : Oracle}
    {msg : String} (ho : UpdateTipSucceeds o) (h : (tryRevert a target o).2 = .error (.error msg)) :
    (tryRevert a target o).1 = a := by
  rcases tryRevert_cases a target o with ⟨e, he⟩ | ⟨hash, db, blk, label, -, hw, he⟩
  · rw [he]
  obtain ⟨-, hh, l, hlook⟩ := revertWalk_found _ _ _ _ _ hw
  obtain ⟨p, hp⟩ := ho.getProvisioners blk.header.stateHash
  obtain ⟨cs, hcs⟩ := ho.getChangedProvisioners blk.header.stateHash
  rw [he, updateTip_of_succeeds (Db.getBlockExists_of_lookup hlook o ho.getBlockExists)
    ho.opWrite hp hcs] at h
  cases h

section
variable (cfg : Params)

/-- An error leaves the acceptor as it was, provided the calls after the
database commit do not fail: the reload of the provisioners and
`finalize_state` for `try_accept_block`, and the calls of `update_tip` for
`try_revert`. A successful `try_accept_block` stores the block at the height
after the tip with its label, makes it the tip, and updates the provisioners. -/
theorem errors_leave_acceptor_unchanged :
    (∀ a blk o msg, (∀ h, ∃ p, o.getProvisioners h = .ok p) →
      o.vmFault .finalizeState = none →
      (tryAcceptBlock cfg a blk o).2 = .error (.error msg) → (tryAcceptBlock cfg a blk o).1 = a) ∧
    (∀ a blk o label, (tryAcceptBlock cfg a blk o).2 = .ok label →
      blk.header.height = a.tip.block.header.height + 1 ∧
      (∃ txs, (tryAcceptBlock cfg a blk o).1.db.ledger =
          a.db.ledger.insert blk.header.height (⟨blk.header, txs.map (·.inner)⟩, label) ∧
        updateProvisioners cfg a.provisionersList blk txs o =
          .ok (tryAcceptBlock cfg a blk o).1.provisionersList) ∧
      (tryAcceptBlock cfg a blk o).1.tip = ⟨blk, label⟩) ∧
    (∀ a target o msg, UpdateTipSucceeds o →
      (tryRevert a target o).2 = .error (.error msg) → (tryRevert a target o).1 = a) := by
  refine ⟨fun _ _ _ _ hp hfin h => tryAcceptBlock_error_unchanged cfg hp hfin h,
    fun a blk o label h => ?_, fun _ _ _ _ ho h => tryRevert_error_unchanged ho h⟩
  obtain ⟨pni, txs, -, hheight, -, hdb, hu, htip, -⟩ := tryAcceptBlock_ok cfg h
  exact ⟨hheight, ⟨txs, hdb, hu⟩, htip⟩

end

/-- The acceptor on a ledger holding only the genesis block, labelled final,
with the VM's finalized root its state hash. -/
def Acceptor.genesis (g : Block) (provisioners : Provisioners) : Acceptor :=
  ⟨⟨g, .final⟩, .new provisioners, ⟨AList.singleton 0 (g, .final), []⟩, ⟨g.header.stateHash⟩⟩

/-- A final block on the genesis tip, and two failures after the database
commit: when `finalize_state` fails the call returns an error with the block
already the tip, and when the reload of the provisioners fails it returns an
error with the block already stored. -/
theorem accept_errors_after_commit :
    let a := Acceptor.genesis (sampleBlock 0) fun _ => none
    let finalizeFails := { sampleOracle 0 1 with vmFault := fun _ => some "finalize_state failed" }
    let reloadFails := { sampleOracle 0 1 with
      getProvisioner := fun _ => .error "get_provisioner failed",
      getProvisioners := fun _ => .error "get_provisioners failed" }
    (tryAcceptBlock sampleParams a (sampleBlock 1) finalizeFails).2 =
        .error (.error "finalize_state failed") ∧
      (tryAcceptBlock sampleParams a (sampleBlock 1) finalizeFails).1.tip ≠ a.tip ∧
      (tryAcceptBlock sampleParams a (sampleBlock 1) reloadFails).2 =
        .error (.error "get_provisioners failed") ∧
      (tryAcceptBlock sampleParams a (sampleBlock 1) reloadFails).1.db.ledger.lookup 1 ≠
        a.db.ledger.lookup 1 :=
  ⟨rfl, by decide, rfl, by decide⟩

end RuskProofs.Chain
