import RuskProofs.Chain.Runs

/-!
`try_revert` on a ledger with a block at every height up to the tip. The walk
of its database transaction compares the heights from the tip down to `1`,
never the genesis block at `0`: it stops at the highest of them whose block
has the target state hash, deleting the blocks above it and giving their
transactions back to the mempool, and `update_tip` makes that block the tip.
-/

namespace RuskProofs.Chain

open RuskProofs.Wire (Label)

/-- The ledger has a block at every height up to `n`, each at its own height. -/
def StoredUpTo (t : Db) (n : Nat) : Prop :=
  ∀ h, h ≤ n → ∃ e, t.ledger.lookup h = some e ∧ e.1.header.height = h

/-- One turn of the walk while the database does not fail: the block at the
height is kept if it has the target state hash, and otherwise deleted, its
transactions given back to the mempool. -/
theorem revertWalk_succ {o : Oracle} {target : Hash} (hdb : ∀ c, o.dbFault c = none) {t : Db}
    {n : Nat} {b : Block} {l : Label} (hlook : t.ledger.lookup (n + 1) = some (b, l))
    (hb : b.header.height = n + 1) :
    revertWalk o target t (n + 1) =
      if b.header.stateHash = target then .ok (t, b, l)
      else revertWalk o target (resubmit o b.txs { t with ledger := t.ledger.erase (n + 1) }) n := by
  simp only [revertWalk, Db.fetchBlockByHeight, Db.fetchBlockLabelByHeight, Db.deleteBlock, hdb,
    guarded_none, Res.ok_bind, hlook, Option.map_some']
  rw [hb, hlook]
  split_ifs <;> rfl

/-- With the database not failing and a block at every height up to `n`, the
walk from `n` succeeds when some height from `1` to `n` holds a block with the
target state hash. -/
theorem revertWalk_ok_of_match {o : Oracle} {target : Hash} (hdb : ∀ c, o.dbFault c = none) :
    ∀ n (t : Db), StoredUpTo t n →
      (∃ k B l, 0 < k ∧ k ≤ n ∧ t.ledger.lookup k = some (B, l) ∧ B.header.stateHash = target) →
      ∃ r, revertWalk o target t n = .ok r
  | 0, _, _, ⟨_, _, _, hk0, hkn, _⟩ => absurd hkn (by omega)
  | n + 1, t, hstored, ⟨k, B, l, hk0, hkn, hk, hB⟩ => by
    obtain ⟨⟨b0, l0⟩, hlook, hb0⟩ := hstored (n + 1) le_rfl
    rw [revertWalk_succ hdb hlook hb0]
    split_ifs with hs
    · exact ⟨_, rfl⟩
    have hkn' : k ≤ n := by
      rcases Nat.lt_or_eq_of_le hkn with h | rfl
      · omega
      · rw [hlook] at hk; cases hk; exact absurd hB hs
    have ht2 : ∀ h, h ≤ n →
        (resubmit o b0.txs { t with ledger := t.ledger.erase (n + 1) }).ledger.lookup h =
          t.ledger.lookup h := fun h hh => by
      rw [lookup_resubmit_erase, if_neg (by omega)]
    exact revertWalk_ok_of_match hdb n _
      (fun h hh => by rw [ht2 h hh]; exact hstored h (by omega))
      ⟨k, B, l, hk0, hkn', by rw [ht2 k hkn']; exact hk, hB⟩

theorem StoredUpTo.height_eq {t : Db} {n : Nat} (hstored : StoredUpTo t n) {h : Nat}
    {e : Block × Label} (hh : h ≤ n) (he : t.ledger.lookup h = some e) : e.1.header.height = h := by
  obtain ⟨e', he', hheight⟩ := hstored h hh
  rw [he] at he'
  cases he'
  exact hheight

/-- With the database and the VM not failing, a walk that finds its block is
followed by an `update_tip` that succeeds. -/
theorem tryRevert_of_walk {a : Acceptor} {target : RevertTarget} {o : Oracle} {t : Hash}
    {db : Db} {blk : Block} {label : Label} (ho : o.Reliable)
    (ht : targetStateHash a.vm o target = .ok t)
    (hw : revertWalk o t a.db a.tip.block.header.height = .ok (db, blk, label)) :
    ∃ pl, tryRevert a target o =
      ({ a with db, tip := ⟨blk, label⟩, provisionersList := pl }, .ok ()) := by
  obtain ⟨hs, h, l, hlook⟩ := revertWalk_found _ _ _ _ _ hw
  obtain ⟨p, hp⟩ := ho.getProvisioners blk.header.stateHash
  obtain ⟨cs, hcs⟩ := ho.getChangedProvisioners blk.header.stateHash
  refine ⟨(a.provisionersList.update p).applyChanges cs, ?_⟩
  unfold tryRevert
  simp only [ht, hw, hs, ne_eq, not_true_eq_false, if_false]
  exact updateTip_of_succeeds (Db.getBlockExists_of_lookup hlook o (ho.dbFault _)) (ho.dbFault _)
    hp hcs

/-- On a ledger with a block at every height up to the tip, and with the
database and the VM not failing, `try_revert` to a state hash `t` the VM
returned succeeds exactly when a block at a height from `1` to the tip has
state hash `t`. With `k` the highest such height, it then deletes the blocks
above `k` up to the tip, gives exactly their transactions back to the mempool
and makes the block at `k` the tip with its stored label; after a revert to
the last finalized state, the tip's state hash is the VM's finalized root. -/
theorem try_revert_to_highest_match {a : Acceptor} {target : RevertTarget} {o : Oracle}
    {t : Hash} (hstored : StoredUpTo a.db a.tip.block.header.height) (ho : o.Reliable)
    (ht : targetStateHash a.vm o target = .ok t) :
    ((tryRevert a target o).2 = .ok () ↔ ∃ k B l, 0 < k ∧ k ≤ a.tip.block.header.height ∧
        a.db.ledger.lookup k = some (B, l) ∧ B.header.stateHash = t) ∧
      ∀ k B l, 0 < k → k ≤ a.tip.block.header.height → a.db.ledger.lookup k = some (B, l) →
        B.header.stateHash = t →
        (∀ h e, k < h → h ≤ a.tip.block.header.height → a.db.ledger.lookup h = some e →
          e.1.header.stateHash ≠ t) →
        (∀ h, (tryRevert a target o).1.db.ledger.lookup h =
          if k < h ∧ h ≤ a.tip.block.header.height then none else a.db.ledger.lookup h) ∧
        (∀ tx, tx ∈ (tryRevert a target o).1.db.mempool ↔ tx ∈ a.db.mempool ∨
          ∃ h e, k < h ∧ h ≤ a.tip.block.header.height ∧ a.db.ledger.lookup h = some e ∧
            tx ∈ e.1.txs) ∧
        (tryRevert a target o).1.tip = ⟨B, l⟩ ∧
        (target = .lastFinalizedState → (tryRevert a target o).1.vm.getFinalizedStateRoot o =
          .ok (tryRevert a target o).1.tip.block.header.stateHash) := by
  have hheight := fun h e => hstored.height_eq (h := h) (e := e)
  refine ⟨⟨fun h => ?_, fun hmatch => ?_⟩, fun k B l hk0 hkn hk hB hhighest => ?_⟩
  · obtain ⟨hash, db, blk, label, pl, hhash, hw, -⟩ := tryRevert_ok h
    rw [ht] at hhash
    cases hhash
    obtain ⟨m, hm0, hmn, hm, -⟩ := revertWalk_ok _ _ _ _ _ hheight hw
    exact ⟨m, blk, label, hm0, hmn, hm, (revertWalk_found _ _ _ _ _ hw).1⟩
  · obtain ⟨⟨db, blk, label⟩, hw⟩ := revertWalk_ok_of_match ho.dbFault _ _ hstored hmatch
    obtain ⟨pl, he⟩ := tryRevert_of_walk ho ht hw
    rw [he]
  obtain ⟨⟨db, blk, label⟩, hw⟩ :=
    revertWalk_ok_of_match ho.dbFault _ _ hstored ⟨k, B, l, hk0, hkn, hk, hB⟩
  obtain ⟨pl, he⟩ := tryRevert_of_walk ho ht hw
  obtain ⟨m, -, hmn, hm, hstates, hafter, hpool⟩ := revertWalk_ok _ _ _ _ _ hheight hw
  have hmk : m = k := by
    rcases lt_trichotomy m k with h | h | h
    · exact absurd hB (hstates k _ h hkn hk)
    · exact h
    · exact absurd (revertWalk_found _ _ _ _ _ hw).1 (hhighest m _ h hmn hm)
  subst hmk
  rw [hk] at hm
  cases hm
  rw [he]
  refine ⟨hafter, hpool fun _ => ho.dbFault _, rfl, fun htarget => ?_⟩
  subst htarget
  have hroot := (guarded_eq_ok ht).2
  simp only [Vm.getFinalizedStateRoot, ho.vmFault, guarded_none, hB, hroot]

/-- A final block at height `1` under an accepted one at height `2`: the
revert to the last finalized state deletes the block at height `2` and makes
the final one the tip. -/
theorem revert_deletes_above_finalized_block :
    let a := (tryAcceptBlock sampleParams (tryAcceptBlock sampleParams
      (.genesis (sampleBlock 0) fun _ => none) (sampleBlock 1) (sampleOracle 0 1)).1
      (sampleBlock 2) (sampleOracle 1 2)).1
    StoredUpTo a.db a.tip.block.header.height ∧ (sampleOracle 0 0).Reliable ∧
      targetStateHash a.vm (sampleOracle 0 0) .lastFinalizedState = .ok 1 ∧
      (tryRevert a .lastFinalizedState (sampleOracle 0 0)).2 = .ok () ∧
      (tryRevert a .lastFinalizedState (sampleOracle 0 0)).1.db.ledger.lookup 2 = none ∧
      (tryRevert a .lastFinalizedState (sampleOracle 0 0)).1.tip = ⟨sampleBlock 1, .final⟩ := by
  intro a
  have hn : a.tip.block.header.height = 2 := rfl
  have hstored : StoredUpTo a.db a.tip.block.header.height := fun h hh => by
    rcases (by omega : h = 0 ∨ h = 1 ∨ h = 2) with rfl | rfl | rfl <;> exact ⟨_, rfl, rfl⟩
  have ht : targetStateHash a.vm (sampleOracle 0 0) .lastFinalizedState = .ok 1 := rfl
  have hspec := try_revert_to_highest_match hstored (sampleOracle_reliable 0 0) ht
  have hhighest : ∀ h e, 1 < h → h ≤ a.tip.block.header.height → a.db.ledger.lookup h = some e →
      e.1.header.stateHash ≠ 1 := fun h e h1 h2 he => by
    obtain rfl : h = 2 := by omega
    cases he
    decide
  obtain ⟨hafter, -, htip, -⟩ := hspec.2 1 _ _ (by decide) (by omega) rfl rfl hhighest
  exact ⟨hstored, sampleOracle_reliable 0 0, ht, hspec.1.mpr ⟨1, _, _, by decide, by omega, rfl, rfl⟩,
    (hafter 2).trans (if_pos ⟨by decide, by omega⟩), htip⟩

/-- Genesis and an accepted block above it, the VM's finalized root still the
genesis state: the walk deletes the block at height `1`, stops at height `0`
without comparing the genesis block, and `try_revert` fails with `not found`;
so does `init_consensus` on restart, whose state root is that of genesis. -/
theorem revert_never_compares_genesis :
    ∃ a pnis, Run sampleParams ReliableCall (sampleBlock 0) (fun _ => none) a pnis ∧
      StoredUpTo a.db a.tip.block.header.height ∧ a.tip.block.header.height = 1 ∧
      (sampleOracle 0 0).Reliable ∧
      targetStateHash a.vm (sampleOracle 0 0) .lastFinalizedState = .ok 0 ∧
      a.db.ledger.lookup 0 = some (sampleBlock 0, .final) ∧ (sampleBlock 0).header.stateHash = 0 ∧
      tryRevert a .lastFinalizedState (sampleOracle 0 0) = (a, .error (.error "not found")) ∧
      (initConsensus a.tip (fun _ => none) a.db a.vm (sampleOracle 0 0)).2 =
        .error (.error "not found") := by
  have r0 : Run sampleParams ReliableCall (sampleBlock 0) (fun _ => none)
      (.genesis (sampleBlock 0) fun _ => none) (fun _ => none) := Run.genesis rfl
  have r1 := r0.next sampleParams (.acceptBlock (sampleBlock 1)) (sampleOracle 1 1)
    ⟨sampleOracle_reliable 1 1, fun _ h => nomatch h⟩ rfl
  refine ⟨_, _, r1, fun h hh => ?_, rfl, sampleOracle_reliable 0 0, rfl, rfl, rfl, rfl, rfl⟩
  have hh1 : h ≤ 1 := hh
  rcases (by omega : h = 0 ∨ h = 1) with rfl | rfl <;> exact ⟨_, rfl, rfl⟩

end RuskProofs.Chain
