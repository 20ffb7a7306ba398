import RuskProofs.Chain.Accept

/-!
Runs of the acceptor from a genesis ledger: calls of `try_accept_block`,
`try_revert` and `init_consensus` (a restart of the node), each with the
answers of the components it calls, restricted by a predicate on the call.
With a VM and a database that do not fail and reverts to the last finalized
state, the VM's finalized root is the state hash of the highest final block,
so no call deletes or relabels a final block.
-/

namespace RuskProofs.Chain

open RuskProofs.Wire (Label)

inductive Call where
  | acceptBlock (blk : Block)
  | revert (target : RevertTarget)
  | restart (provisioners : Provisioners)

section
variable (cfg : Params)

/-- A call on the acceptor. A restart runs `init_consensus` on the tip,
database and VM the node had. -/
def Call.run (a : Acceptor) (o : Oracle) : Call → Acceptor × Res Unit
  | .acceptBlock blk =>
    ((tryAcceptBlock cfg a blk o).1, (tryAcceptBlock cfg a blk o).2.map fun _ => ())
  | .revert target => tryRevert a target o
  | .restart provisioners => initConsensus a.tip provisioners a.db a.vm o

/-- The acceptor after a call, unless the call panicked. -/
def step (a : Acceptor) (c : Call) (o : Oracle) : Option Acceptor :=
  match c.run cfg a o with
  | (_, .error (.panic _)) => none
  | (a', _) => some a'

/-- The PNI that `verify_block_header` returned for each height it checked a
block at: a ghost record of the run. -/
def recordPni (a : Acceptor) (c : Call) (o : Oracle) (pnis : Nat → Option UInt8) :
    Nat → Option UInt8 :=
  match c with
  | .acceptBlock blk =>
    match verifyBlockHeader a.tip.block.header blk.header o.headerChecks with
    | .ok pni => Function.update pnis blk.header.height (some pni)
    | .error _ => pnis
  | _ => pnis

/-- The acceptors that calls admitted by `allowed` reach from the genesis
block `g`, with the PNIs recorded along the way. -/
inductive Run (allowed : Acceptor → Call → Oracle → Prop) (g : Block) (p : Provisioners) :
    Acceptor → (Nat → Option UInt8) → Prop
  | genesis (hg : g.header.height = 0) : Run allowed g p (.genesis g p) fun _ => none
  | step {a a' pnis c o} : Run allowed g p a pnis → allowed a c o → step cfg a c o = some a' →
      Run allowed g p a' (recordPni a c o pnis)

theorem step_some {a a' : Acceptor} {c : Call} {o : Oracle} (h : step cfg a c o = some a') :
    (c.run cfg a o).1 = a' ∧ ∀ m, (c.run cfg a o).2 ≠ .error (.panic m) := by
  unfold step at h
  rcases hr : c.run cfg a o with ⟨a'', (e | _)⟩ <;> rw [hr] at h
  · cases e with
    | error msg => cases h; exact ⟨rfl, fun m hm => by cases hm⟩
    | panic m => cases h
  · cases h; exact ⟨rfl, fun m hm => by cases hm⟩

/-- One more call of a run, with the acceptor it leaves. -/
theorem Run.next {allowed : Acceptor → Call → Oracle → Prop} {g : Block} {p : Provisioners}
    {a : Acceptor} {pnis : Nat → Option UInt8} (hrun : Run cfg allowed g p a pnis) (c : Call)
    (o : Oracle) (hc : allowed a c o) (hstep : Chain.step cfg a c o = some (c.run cfg a o).1) :
    Run cfg allowed g p (c.run cfg a o).1 (recordPni a c o pnis) :=
  .step hrun hc hstep

end

theorem genesis_lookup (g : Block) (p : Provisioners) (h : Nat) :
    (Acceptor.genesis g p).db.ledger.lookup h = if h = 0 then some (g, .final) else none := by
  split_ifs with h0
  · subst h0; rfl
  · simp only [Acceptor.genesis, AList.lookup, AList.singleton_entries]
    rw [List.dlookup_cons_ne _ _ h0, List.dlookup_nil]

/-- The walk stops at a height `m` holding the target state hash, above which
no height holds it, and its transaction deletes every height from the start
down to `m`, exclusive, giving their transactions back to the mempool. -/
theorem revertWalk_ok {o : Oracle} {target : Hash} :
    ∀ n (t t' : Db) (b : Block) (label : Label),
      (∀ h e, h ≤ n → t.ledger.lookup h = some e → e.1.header.height = h) →
      revertWalk o target t n = .ok (t', b, label) →
      ∃ m, 0 < m ∧ m ≤ n ∧ t.ledger.lookup m = some (b, label) ∧
        (∀ h e, m < h → h ≤ n → t.ledger.lookup h = some e → e.1.header.stateHash ≠ target) ∧
        (∀ h, t'.ledger.lookup h = if m < h ∧ h ≤ n then none else t.ledger.lookup h) ∧
        ((∀ tx, o.dbFault (.addTx tx) = none) → ∀ tx, tx ∈ t'.mempool ↔
          tx ∈ t.mempool ∨ ∃ h e, m < h ∧ h ≤ n ∧ t.ledger.lookup h = some e ∧ tx ∈ e.1.txs)
  | 0, _, _, _, _, _, h => by cases h
  | n + 1, t, t', b, label, hheight, h => by
    obtain ⟨b0, l0, hlook, ⟨hs, e, he, hr⟩ | ⟨hs, h⟩⟩ := revertWalk_succ_eq_ok h <;>
      have hb0 : b0.header.height = n + 1 := hheight _ _ le_rfl hlook
    · rw [hb0, hlook] at he
      cases he; cases hr
      refine ⟨n + 1, by omega, le_rfl, hlook, fun h e h1 h2 => absurd h2 (by omega),
        fun h => by rw [if_neg (by omega)], fun _ tx => ?_⟩
      exact ⟨.inl, fun h => h.resolve_right fun ⟨_, _, h1, h2, _⟩ => by omega⟩
    · rw [hb0] at h
      have ht2 := lookup_resubmit_erase o b0.txs t (n + 1)
      obtain ⟨m, hm0, hmn, hm, hstates, hafter, hpool⟩ := revertWalk_ok n _ t' b label
        (fun h e hle he => hheight h e (by omega) (by rwa [ht2, if_neg (by omega)] at he)) h
      rw [ht2, if_neg (by omega)] at hm
      refine ⟨m, hm0, by omega, hm, fun h e h1 h2 he => ?_, fun h => ?_, fun hf tx => ?_⟩
      · rcases Nat.lt_or_eq_of_le h2 with h2 | rfl
        · exact hstates h e h1 (by omega) (by rwa [ht2, if_neg (by omega)])
        · rw [hlook] at he; cases he; exact hs
      · rw [hafter, ht2]
        split_ifs <;> first | rfl | omega
      · rw [hpool hf, mem_resubmit hf]
        constructor
        · rintro ((hmem | hmem) | ⟨h, e, h1, h2, he, hmem⟩)
          · exact .inl hmem
          · exact .inr ⟨n + 1, _, by omega, le_rfl, hlook, hmem⟩
          · rw [ht2, if_neg (by omega)] at he
            exact .inr ⟨h, e, h1, by omega, he, hmem⟩
        · rintro (hmem | ⟨h, e, h1, h2, he, hmem⟩)
          · exact .inl (.inl hmem)
          · rcases Nat.lt_or_eq_of_le h2 with h2 | rfl
            · exact .inr ⟨h, e, h1, by omega, by rwa [ht2, if_neg (by omega)], hmem⟩
            · rw [hlook] at he; cases he; exact .inl (.inr hmem)

/-- What is left of a ledger holding nothing above `n` once the walk from `n`
stopped at `m`: the heights up to `m`. -/
theorem lookup_truncated {L L' : AList fun _ : Nat => Block × Label} {m n : Nat}
    (hle : ∀ h e, L.lookup h = some e → h ≤ n)
    (hwalk : ∀ h, L'.lookup h = if m < h ∧ h ≤ n then none else L.lookup h) (h : Nat) :
    L'.lookup h = if h ≤ m then L.lookup h else none := by
  rw [hwalk]
  by_cases h1 : h ≤ m
  · rw [if_neg (by omega), if_pos h1]
  · rw [if_neg h1]
    split_ifs with h2
    · rfl
    · cases hL : L.lookup h with
      | none => rfl
      | some e => exact absurd (hle h e hL) (by omega)

/-- The VM's finalized root is the state hash of the highest block labelled
`Final`. -/
def FinalizedRootIsHighestFinal (a : Acceptor) : Prop :=
  ∃ f B, a.db.ledger.lookup f = some (B, .final) ∧ B.header.stateHash = a.vm.finalizedRoot ∧
    ∀ h e, f < h → a.db.ledger.lookup h = some e → e.2 ≠ .final

/-- The invariant of the runs without failures: each block is stored at its
own height, none above the tip, and the finalized root is that of the
highest final block. -/
structure FinalityInv (a : Acceptor) : Prop where
  height_eq : ∀ h e, a.db.ledger.lookup h = some e → e.1.header.height = h
  le_tip : ∀ h e, a.db.ledger.lookup h = some e → h ≤ a.tip.block.header.height
  highest_final : FinalizedRootIsHighestFinal a

/-- The VM and the database do not fail during the call. -/
structure Oracle.Reliable (o : Oracle) : Prop where
  accept : ∃ r, o.accept = .ok r
  getProvisioner : ∀ pk, ∃ s, o.getProvisioner pk = .ok s
  getProvisioners : ∀ h, ∃ p, o.getProvisioners h = .ok p
  getChangedProvisioners : ∀ h, ∃ cs, o.getChangedProvisioners h = .ok cs
  revert : ∀ h, ∃ h', o.revert h = .ok h'
  vmFault : ∀ c, o.vmFault c = none
  dbFault : ∀ c, o.dbFault c = none

theorem Oracle.Reliable.updateTip {o : Oracle} (ho : o.Reliable) : UpdateTipSucceeds o :=
  ⟨ho.dbFault _, ho.dbFault _, ho.getProvisioners, ho.getChangedProvisioners⟩

theorem sampleOracle_reliable (pni : UInt8) (root : Hash) : (sampleOracle pni root).Reliable :=
  ⟨⟨_, rfl⟩, fun _ => ⟨_, rfl⟩, fun _ => ⟨_, rfl⟩, fun _ => ⟨_, rfl⟩, fun _ => ⟨_, rfl⟩,
    fun _ => rfl, fun _ => rfl⟩

/-- Any call while the VM and the database do not fail, reverts being to the
last finalized state. -/
def ReliableCall (_ : Acceptor) (c : Call) (o : Oracle) : Prop :=
  o.Reliable ∧ ∀ target, c = .revert target → target = .lastFinalizedState

theorem FinalityInv.congr {a b : Acceptor} (hinv : FinalityInv a) (htip : b.tip = a.tip)
    (hdb : b.db = a.db) (hvm : b.vm = a.vm) : FinalityInv b := by
  obtain ⟨tip, pl, db, vm⟩ := a
  obtain ⟨tip', pl', db', vm'⟩ := b
  simp only at htip hdb hvm
  subst htip hdb hvm
  exact ⟨hinv.1, hinv.2, hinv.3⟩

section
variable (cfg : Params)

/-- A successful `try_accept_block` keeps the invariant and every final
block. -/
theorem finalityInv_accept {a : Acceptor} {blk : Block} {o : Oracle} {label : Label}
    (hinv : FinalityInv a) (h : (tryAcceptBlock cfg a blk o).2 = .ok label) :
    FinalityInv (tryAcceptBlock cfg a blk o).1 ∧ ∀ h B, a.db.ledger.lookup h = some (B, .final) →
      (tryAcceptBlock cfg a blk o).1.db.ledger.lookup h = some (B, .final) := by
  obtain ⟨pni, txs, -, hheight, -, hdb, -, htip, hvm⟩ := tryAcceptBlock_ok cfg h
  set n := blk.header.height
  have hold : ∀ h, h ≠ n → (tryAcceptBlock cfg a blk o).1.db.ledger.lookup h =
      a.db.ledger.lookup h := fun h hne => by rw [hdb]; exact AList.lookup_insert_ne hne
  have hnew : (tryAcceptBlock cfg a blk o).1.db.ledger.lookup n =
      some (⟨blk.header, txs.map (·.inner)⟩, label) := by rw [hdb]; exact AList.lookup_insert _
  have hfree : ∀ e, a.db.ledger.lookup n ≠ some e := fun e he => by
    have := hinv.le_tip n e he; omega
  refine ⟨⟨fun h e he => ?_, fun h e he => ?_, ?_⟩, fun h B hB => ?_⟩
  · by_cases hn : h = n
    · subst hn; rw [hnew] at he; cases he; rfl
    · rw [hold h hn] at he; exact hinv.height_eq h e he
  · rw [htip]
    show h ≤ n
    by_cases hn : h = n
    · omega
    · rw [hold h hn] at he; have := hinv.le_tip h e he; omega
  · obtain ⟨f, B, hf, hroot, habove⟩ := hinv.highest_final
    have hfn : f ≠ n := fun hfn => hfree _ (hfn ▸ hf)
    by_cases hl : label = .final
    · subst hl
      refine ⟨n, _, hnew, by rw [hvm, if_pos rfl], fun h e h1 he => ?_⟩
      rw [hold h (by omega)] at he
      have := hinv.le_tip h e he
      omega
    · refine ⟨f, B, by rw [hold f hfn, hf], by rw [hvm, if_neg hl, hroot], fun h e h1 he => ?_⟩
      by_cases hn : h = n
      · subst hn; rw [hnew] at he; cases he; exact hl
      · rw [hold h hn] at he; exact habove h e h1 he
  · rw [hold h fun hn => hfree _ (hn ▸ hB), hB]

/-- A successful revert to the last finalized state stops at or above the
highest final block, so it keeps the invariant and every final block. -/
theorem finalityInv_revert {a : Acceptor} {o : Oracle} (hinv : FinalityInv a)
    (h : (tryRevert a .lastFinalizedState o).2 = .ok ()) :
    FinalityInv (tryRevert a .lastFinalizedState o).1 ∧
      ∀ h B, a.db.ledger.lookup h = some (B, .final) →
        (tryRevert a .lastFinalizedState o).1.db.ledger.lookup h = some (B, .final) := by
  obtain ⟨hash, db, blk, label, pl, hhash, hw, hstate⟩ := tryRevert_ok h
  have hhash : hash = a.vm.finalizedRoot := ((guarded_eq_ok hhash).2).symm ▸ rfl
  subst hhash
  obtain ⟨m, -, hmn, hm, hstates, hafter, -⟩ :=
    revertWalk_ok _ _ _ _ _ (fun h e _ => hinv.height_eq h e) hw
  have htrunc := lookup_truncated hinv.le_tip hafter
  obtain ⟨f, B, hf, hroot, habove⟩ := hinv.highest_final
  have hfm : f ≤ m := by
    by_contra hfm
    exact hstates f _ (by omega) (hinv.le_tip f _ hf) hf hroot
  rw [hstate]
  refine ⟨⟨fun h e he => ?_, fun h e he => ?_, f, B, ?_, hroot, fun h e h1 he => ?_⟩,
    fun h B' hB' => ?_⟩
  · rw [htrunc] at he
    split_ifs at he
    exact hinv.height_eq h e he
  · rw [htrunc] at he
    split_ifs at he with hle
    rw [hinv.height_eq m _ hm]
    exact hle
  · rw [htrunc, if_pos hfm, hf]
  · rw [htrunc] at he
    split_ifs at he
    exact habove h e h1 he
  · rw [htrunc, if_pos, hB']
    by_contra hlt
    exact habove h _ (by omega) hB' rfl

/-- Under a VM and a database that do not fail, a revert to the last
finalized state that does not panic keeps the invariant and every final
block, whether it succeeds or returns an error. -/
theorem finalityInv_revert_call {a : Acceptor} {o : Oracle} (ho : o.Reliable)
    (hinv : FinalityInv a) (hnp : ∀ m, (tryRevert a .lastFinalizedState o).2 ≠ .error (.panic m)) :
    FinalityInv (tryRevert a .lastFinalizedState o).1 ∧
      ∀ h B, a.db.ledger.lookup h = some (B, .final) →
        (tryRevert a .lastFinalizedState o).1.db.ledger.lookup h = some (B, .final) := by
  rcases hr : (tryRevert a .lastFinalizedState o).2 with e | _
  · cases e with
    | error msg =>
      rw [tryRevert_error_unchanged ho.updateTip hr]
      exact ⟨hinv, fun _ _ h => h⟩
    | panic m => exact absurd hr (hnp m)
  · exact finalityInv_revert hinv hr

/-- Under a VM and a database that do not fail, a call keeps the invariant
and every final block, whether it succeeds or returns an error. -/
theorem finalityInv_step {a a' : Acceptor} {c : Call} {o : Oracle} (hinv : FinalityInv a)
    (hc : ReliableCall a c o) (hstep : step cfg a c o = some a') :
    FinalityInv a' ∧ ∀ h B, a.db.ledger.lookup h = some (B, .final) →
      a'.db.ledger.lookup h = some (B, .final) := by
  obtain ⟨ho, htarget⟩ := hc
  obtain ⟨hrun, hnp⟩ := step_some cfg hstep
  subst hrun
  cases c with
  | acceptBlock blk =>
    rcases hr : (tryAcceptBlock cfg a blk o).2 with e | label
    · cases e with
      | error msg =>
        have := tryAcceptBlock_error_unchanged cfg ho.getProvisioners (ho.vmFault _) hr
        simp only [Call.run, this]
        exact ⟨hinv, fun _ _ h => h⟩
      | panic m => exact absurd (by simp only [Call.run, hr]; rfl) (hnp m)
    · exact finalityInv_accept cfg hinv hr
  | revert target =>
    obtain rfl := htarget target rfl
    exact finalityInv_revert_call ho hinv hnp
  | restart provisioners =>
    simp only [Call.run] at hnp ⊢
    rcases initConsensus_cases a.tip provisioners a.db a.vm o with ⟨pl, r, he⟩ | ⟨pl, he⟩ <;>
      rw [he] at hnp ⊢
    · exact ⟨hinv.congr rfl rfl rfl, fun _ _ h => h⟩
    · exact finalityInv_revert_call ho (hinv.congr rfl rfl rfl) hnp

theorem finalityInv_genesis {g : Block} (hg : g.header.height = 0) (p : Provisioners) :
    FinalityInv (.genesis g p) := by
  refine ⟨fun h e he => ?_, fun h e he => ?_, 0, g, genesis_lookup g p 0, rfl, fun h e h1 he => ?_⟩
  all_goals rw [genesis_lookup] at he; split_ifs at he with h0
  · cases he; rw [h0, hg]
  · subst h0; exact Nat.zero_le _
  · omega

theorem finalityInv_of_run {g : Block} {p : Provisioners} {a : Acceptor}
    {pnis : Nat → Option UInt8} (hrun : Run cfg ReliableCall g p a pnis) : FinalityInv a := by
  induction hrun with
  | genesis hg => exact finalityInv_genesis hg p
  | step _ hc hstep ih => exact (finalityInv_step cfg ih hc hstep).1

/-- Along every run whose VM and database do not fail, the VM's finalized
root is the state hash of the highest final block, and no call deletes or
relabels a final block. -/
theorem finalized_root_is_highest_final {g : Block} {p : Provisioners} {a : Acceptor}
    {pnis : Nat → Option UInt8} (hrun : Run cfg ReliableCall g p a pnis) :
    FinalizedRootIsHighestFinal a ∧ ∀ c o a', ReliableCall a c o → step cfg a c o = some a' →
      ∀ h B, a.db.ledger.lookup h = some (B, .final) → a'.db.ledger.lookup h = some (B, .final) :=
  ⟨(finalityInv_of_run cfg hrun).highest_final,
    fun _ _ _ hc hstep => (finalityInv_step cfg (finalityInv_of_run cfg hrun) hc hstep).2⟩

end

/-- A final block at height `1`, an accepted one at height `2`, then a revert
to the last finalized state that deletes the block at height `2`. -/
theorem finalized_root_after_accepts_and_revert :
    ∃ a pnis, Run sampleParams ReliableCall (sampleBlock 0) (fun _ => none) a pnis ∧
      a.tip.block.header.height = 1 ∧ a.vm.finalizedRoot = 1 ∧
      FinalizedRootIsHighestFinal a := by
  have r0 : Run sampleParams ReliableCall (sampleBlock 0) (fun _ => none)
      (.genesis (sampleBlock 0) fun _ => none) (fun _ => none) := Run.genesis rfl
  have r1 := r0.next sampleParams (.acceptBlock (sampleBlock 1)) (sampleOracle 0 1)
    ⟨sampleOracle_reliable 0 1, fun _ h => nomatch h⟩ rfl
  have r2 := r1.next sampleParams (.acceptBlock (sampleBlock 2)) (sampleOracle 1 2)
    ⟨sampleOracle_reliable 1 2, fun _ h => nomatch h⟩ rfl
  have r3 := r2.next sampleParams (.revert .lastFinalizedState) (sampleOracle 0 0)
    ⟨sampleOracle_reliable 0 0, fun _ h => by cases h; rfl⟩ rfl
  exact ⟨_, _, r3, rfl, rfl, (finalized_root_is_highest_final sampleParams r3).1⟩

end RuskProofs.Chain
