import RuskProofs.Chain.Runs

/-!
The labels of the ledger along runs of `try_accept_block` and `try_revert`
calls that succeed or change nothing. The ledger then holds one label for each
height up to the tip, the tip's own at its height, so the scan of
`rolling_finality` finds every label it reads; a label other than `Accepted`
was given for a PNI of zero, `Attested` never follows `Final`, and `Final`
follows `Final` or a window of `Attested` labels. A `try_revert` whose
`update_tip` fails after its deletions commit breaks the first of these.
The genesis entry stays `Final` along these runs, so below a tip that is not
final and stands at height two or more, `get_latest_final_block` always finds
a final block.
-/

namespace RuskProofs.Chain

open RuskProofs.Wire (Label)

section
variable (cfg : Params)

/-- `try_accept_block` and `try_revert` calls that return `Ok` or leave the
acceptor unchanged. -/
def SucceedsOrKeeps (a : Acceptor) (c : Call) (o : Oracle) : Prop :=
  (∀ p, c ≠ .restart p) ∧ ((c.run cfg a o).2 = .ok () ∨ (c.run cfg a o).1 = a)

theorem succeedsOrKeeps_accept {a : Acceptor} {blk : Block} {o : Oracle}
    (h : ((Call.acceptBlock blk).run sampleParams a o).2 = .ok ()) :
    SucceedsOrKeeps sampleParams a (.acceptBlock blk) o :=
  ⟨fun _ hc => (nomatch hc), .inl h⟩

/-- The labels of the ledger: each block at its own height, one label for
each height up to the tip and none above, the tip's label at the tip's
height, and the rules of rolling finality between a label, the PNI its block
had, and the labels below it. -/
structure LabelInv (a : Acceptor) (pnis : Nat → Option UInt8) : Prop where
  height_eq : ∀ h e, a.db.ledger.lookup h = some e → e.1.header.height = h
  stored : ∀ h, (a.db.ledger.lookup h).isSome ↔ h ≤ a.tip.block.header.height
  tip_label : (a.db.ledger.lookup a.tip.block.header.height).map (·.2) = some a.tip.label
  pni_zero : ∀ n e, 0 < n → a.db.ledger.lookup n = some e → e.2 ≠ .accepted → pnis n = some 0
  attested : ∀ n B, 0 < n → a.db.ledger.lookup n = some (B, .attested) →
    ∃ e, a.db.ledger.lookup (n - 1) = some e ∧ e.2 ≠ .final
  final : ∀ n B, 0 < n → a.db.ledger.lookup n = some (B, .final) →
    (∃ B', a.db.ledger.lookup (n - 1) = some (B', .final)) ∨
      ∀ h, n - cfg.rollingFinalityThreshold ≤ h → h < n →
        ∃ B', a.db.ledger.lookup h = some (B', .attested)

theorem LabelInv.le_tip {a : Acceptor} {pnis : Nat → Option UInt8} (hinv : LabelInv cfg a pnis)
    {h : Nat} {e : Block × Label} (he : a.db.ledger.lookup h = some e) :
    h ≤ a.tip.block.header.height :=
  (hinv.stored h).mp (by rw [he]; rfl)

theorem recordPni_le_tip {a : Acceptor} {c : Call} {o : Oracle} {pnis : Nat → Option UInt8}
    {n : Nat} (hn : n ≤ a.tip.block.header.height) : recordPni a c o pnis n = pnis n := by
  cases c with
  | acceptBlock blk =>
    simp only [recordPni]
    cases hv : verifyBlockHeader a.tip.block.header blk.header o.headerChecks with
    | ok pni => exact Function.update_noteq (by have := (verifyBlockHeader_ok hv).1; omega) _ _
    | error e => rfl
  | revert _ => rfl
  | restart _ => rfl

theorem LabelInv.congr_pnis {a : Acceptor} {pnis pnis' : Nat → Option UInt8}
    (hinv : LabelInv cfg a pnis) (hp : ∀ n, n ≤ a.tip.block.header.height → pnis' n = pnis n) :
    LabelInv cfg a pnis' :=
  { hinv with
    pni_zero := fun n e h0 he hl => by
      rw [hp n (hinv.le_tip cfg he)]; exact hinv.pni_zero n e h0 he hl }

/-- Below a tip that is not final, a scan through `Attested` labels never
meets a `Final` one: the warning branch of `rolling_finality` is unreachable. -/
theorem LabelInv.scan_meets_no_final {a : Acceptor} {pnis : Nat → Option UInt8}
    (hinv : LabelInv cfg a pnis) (htip : a.tip.label ≠ .final) {h : Nat}
    (hh : h ≤ a.tip.block.header.height)
    (habove : ∀ h', h < h' → h' ≤ a.tip.block.header.height →
      ∃ B, a.db.ledger.lookup h' = some (B, .attested)) (B : Block) :
    a.db.ledger.lookup h ≠ some (B, .final) := by
  intro hB
  rcases Nat.lt_or_eq_of_le hh with hlt | rfl
  · obtain ⟨B', hB'⟩ := habove (h + 1) (by omega) hlt
    obtain ⟨e, he, hne⟩ := hinv.attested (h + 1) B' (by omega) hB'
    rw [Nat.add_sub_cancel, hB] at he
    cases he
    exact hne rfl
  · have := hinv.tip_label
    rw [hB] at this
    exact htip (Option.some.inj this).symm

theorem LabelInv.tip_lookup {a : Acceptor} {pnis : Nat → Option UInt8}
    (hinv : LabelInv cfg a pnis) :
    ∃ B, a.db.ledger.lookup a.tip.block.header.height = some (B, a.tip.label) := by
  obtain ⟨⟨B, l⟩, hB, rfl⟩ := Option.map_eq_some'.mp hinv.tip_label
  exact ⟨B, hB⟩

theorem LabelInv.rollingFinality_rules {a : Acceptor} {pnis : Nat → Option UInt8}
    (hinv : LabelInv cfg a pnis) {pni : UInt8} {blk : Block} {o : Oracle} {label : Label}
    (hheight : blk.header.height = a.tip.block.header.height + 1)
    (hlabel : rollingFinality cfg pni a.tip.isFinal blk a.db o = .ok label) :
    (label ≠ .accepted → pni = 0) ∧ (label = .attested → a.tip.label ≠ .final) ∧
      (label = .final → a.tip.label = .final ∨
        ∀ h, blk.header.height - cfg.rollingFinalityThreshold ≤ h → h < blk.header.height →
          ∃ B, a.db.ledger.lookup h = some (B, .attested)) := by
  obtain ⟨hpni, hatt, hfin⟩ := rollingFinality_ok cfg hlabel
  refine ⟨fun hl => not_not.mp (mt hpni.mpr hl),
    fun hl => by simpa [BlockWithLabel.isFinal] using hatt hl, fun hl => ?_⟩
  by_cases htf : a.tip.label = .final
  · exact .inl htf
  rcases hfin hl with htf' | hscan
  · exact absurd (by simpa [BlockWithLabel.isFinal] using htf') htf
  rcases scanLabels_final _ hscan with hall | ⟨h, B, -, h2, hB, habove⟩
  · exact .inr hall
  · exact absurd hB
      (hinv.scan_meets_no_final cfg htf (by omega) (fun h' h3 h4 => habove h' h3 (by omega)) B)

theorem labelInv_accept {a : Acceptor} {blk : Block} {o : Oracle} {label : Label}
    {pnis : Nat → Option UInt8} (hinv : LabelInv cfg a pnis)
    (h : (tryAcceptBlock cfg a blk o).2 = .ok label) :
    LabelInv cfg (tryAcceptBlock cfg a blk o).1 (recordPni a (.acceptBlock blk) o pnis) := by
  obtain ⟨pni, txs, hv, hheight, hlabel, hdb, -, htip, -⟩ := tryAcceptBlock_ok cfg h
  obtain ⟨hpni, hatt, hfin⟩ := hinv.rollingFinality_rules cfg hheight hlabel
  obtain ⟨Btip, htipLook⟩ := hinv.tip_lookup cfg
  have hrec : recordPni a (.acceptBlock blk) o pnis =
      Function.update pnis blk.header.height (some pni) := by simp only [recordPni, hv]
  set L := a.db.ledger
  set T := a.tip.block.header.height
  set n := blk.header.height
  have hold : ∀ h, h ≠ n → (tryAcceptBlock cfg a blk o).1.db.ledger.lookup h = L.lookup h :=
    fun h hne => by rw [hdb]; exact AList.lookup_insert_ne hne
  have hnew : (tryAcceptBlock cfg a blk o).1.db.ledger.lookup n =
      some (⟨blk.header, txs.map (·.inner)⟩, label) := by rw [hdb]; exact AList.lookup_insert _
  have hprev : (tryAcceptBlock cfg a blk o).1.db.ledger.lookup (n - 1) =
      some (Btip, a.tip.label) := by
    rw [hold _ (by omega), show n - 1 = T by omega, htipLook]
  have hbelow : ∀ h e, (tryAcceptBlock cfg a blk o).1.db.ledger.lookup h = some e → h ≠ n →
      h ≤ T := fun h e he hne => hinv.le_tip cfg (by rwa [hold h hne] at he)
  rw [hrec]
  refine ⟨fun h e he => ?_, fun h => ?_, ?_, fun n' e h0 he hl => ?_, fun n' B h0 he => ?_,
    fun n' B h0 he => ?_⟩
  · by_cases hn : h = n
    · subst hn; rw [hnew] at he; cases he; rfl
    · rw [hold h hn] at he; exact hinv.height_eq h e he
  · rw [htip]
    show _ ↔ h ≤ n
    by_cases hn : h = n
    · subst hn; simp [hnew]
    · rw [hold h hn, hinv.stored]; omega
  · rw [htip]
    show Option.map _ ((tryAcceptBlock cfg a blk o).1.db.ledger.lookup n) = _
    rw [hnew]; rfl
  · by_cases hn : n' = n
    · subst hn
      rw [hnew] at he; cases he
      rw [Function.update_same, hpni hl]
    · rw [Function.update_noteq hn]
      exact hinv.pni_zero n' e h0 (by rwa [hold n' hn] at he) hl
  · by_cases hn : n' = n
    · subst hn
      rw [hnew] at he; cases he
      exact ⟨_, hprev, hatt rfl⟩
    · have hle := hbelow n' _ he hn
      rw [hold n' hn] at he
      obtain ⟨e, he', hne⟩ := hinv.attested n' B h0 he
      exact ⟨e, by rw [hold (n' - 1) (by omega), he'], hne⟩
  · by_cases hn : n' = n
    · subst hn
      rw [hnew] at he; cases he
      rcases hfin rfl with htf | hall
      · exact .inl ⟨Btip, htf ▸ hprev⟩
      · exact .inr fun h h1 h2 => by rw [hold h (by omega)]; exact hall h h1 h2
    · have hle := hbelow n' _ he hn
      rw [hold n' hn] at he
      rcases hinv.final n' B h0 he with ⟨B', hB'⟩ | hall
      · exact .inl ⟨B', by rw [hold (n' - 1) (by omega), hB']⟩
      · exact .inr fun h h1 h2 => by rw [hold h (by omega)]; exact hall h h1 h2

theorem labelInv_revert {a : Acceptor} {target : RevertTarget} {o : Oracle}
    {pnis : Nat → Option UInt8} (hinv : LabelInv cfg a pnis)
    (h : (tryRevert a target o).2 = .ok ()) : LabelInv cfg (tryRevert a target o).1 pnis := by
  obtain ⟨hash, db, blk, label, pl, -, hw, hstate⟩ := tryRevert_ok h
  obtain ⟨m, -, hmn, hm, -, hafter, -⟩ :=
    revertWalk_ok _ _ _ _ _ (fun h e _ => hinv.height_eq h e) hw
  have htrunc := lookup_truncated (fun h e he => hinv.le_tip cfg he) hafter
  have hkept : ∀ h e, db.ledger.lookup h = some e → h ≤ m ∧ a.db.ledger.lookup h = some e := by
    intro h e he
    rw [htrunc] at he
    split_ifs at he with hle
    exact ⟨hle, he⟩
  have hbm : blk.header.height = m := hinv.height_eq m _ hm
  rw [hstate]
  refine ⟨fun h e he => hinv.height_eq h e (hkept h e he).2, fun h => ?_, ?_,
    fun n e h0 he hl => hinv.pni_zero n e h0 (hkept n e he).2 hl, fun n B h0 he => ?_,
    fun n B h0 he => ?_⟩
  · show _ ↔ h ≤ blk.header.height
    rw [hbm, htrunc]
    split_ifs with hle
    · rw [hinv.stored]; omega
    · simp only [Option.isSome_none, Bool.false_eq_true, false_iff]; exact hle
  · show Option.map _ (db.ledger.lookup blk.header.height) = _
    rw [hbm, htrunc, if_pos le_rfl, hm]
    rfl
  · obtain ⟨hle, he⟩ := hkept n _ he
    obtain ⟨e, he', hne⟩ := hinv.attested n B h0 he
    exact ⟨e, by rw [htrunc, if_pos (by omega), he'], hne⟩
  · obtain ⟨hle, he⟩ := hkept n _ he
    rcases hinv.final n B h0 he with ⟨B', hB'⟩ | hall
    · exact .inl ⟨B', by rw [htrunc, if_pos (by omega), hB']⟩
    · exact .inr fun h h1 h2 => by rw [htrunc, if_pos (by omega)]; exact hall h h1 h2

theorem labelInv_step {a a' : Acceptor} {c : Call} {o : Oracle} {pnis : Nat → Option UInt8}
    (hinv : LabelInv cfg a pnis) (hc : SucceedsOrKeeps cfg a c o)
    (hstep : step cfg a c o = some a') : LabelInv cfg a' (recordPni a c o pnis) := by
  obtain ⟨hrun, -⟩ := step_some cfg hstep
  subst hrun
  obtain ⟨hnot, hok | hkeep⟩ := hc
  · cases c with
    | acceptBlock blk =>
      rcases hr : (tryAcceptBlock cfg a blk o).2 with e | label
      · simp only [Call.run, hr] at hok; cases hok
      · exact labelInv_accept cfg hinv hr
    | revert target => exact labelInv_revert cfg hinv hok
    | restart p => exact absurd rfl (hnot p)
  · rw [hkeep]
    exact hinv.congr_pnis cfg fun n hn => recordPni_le_tip hn

theorem labelInv_genesis {g : Block} (hg : g.header.height = 0) (p : Provisioners) :
    LabelInv cfg (.genesis g p) fun _ => none := by
  have hpos : ∀ n e, 0 < n → (Acceptor.genesis g p).db.ledger.lookup n ≠ some e := by
    intro n e h0 he
    rw [genesis_lookup, if_neg (by omega)] at he
    cases he
  refine ⟨fun h e he => ?_, fun h => ?_, ?_,
    fun n e h0 he => absurd he (hpos n e h0), fun n B h0 he => absurd he (hpos n _ h0),
    fun n B h0 he => absurd he (hpos n _ h0)⟩
  · rw [genesis_lookup] at he
    split_ifs at he with h0
    cases he
    rw [hg, h0]
  · show _ ↔ h ≤ g.header.height
    rw [genesis_lookup, hg]
    split_ifs with h0 <;> simp [h0]
  · show ((Acceptor.genesis g p).db.ledger.lookup g.header.height).map (·.2) = some Label.final
    rw [hg, genesis_lookup, if_pos rfl]
    rfl

theorem labelInv_of_run {g : Block} {p : Provisioners} {a : Acceptor}
    {pnis : Nat → Option UInt8} (hrun : Run cfg (SucceedsOrKeeps cfg) g p a pnis) :
    LabelInv cfg a pnis := by
  induction hrun with
  | genesis hg => exact labelInv_genesis cfg hg p
  | step _ hc hstep ih => exact labelInv_step cfg ih hc hstep

theorem rollingFinality_ne_panic {a : Acceptor} {pnis : Nat → Option UInt8}
    (hinv : LabelInv cfg a pnis) {pni : UInt8} {tipIsFinal : Bool} {blk : Block}
    (hheight : blk.header.height = a.tip.block.header.height + 1) (o : Oracle) (m : String) :
    rollingFinality cfg pni tipIsFinal blk a.db o ≠ .error (.panic m) := by
  unfold rollingFinality
  dsimp only
  split
  · simp
  · simp
  · exact scanLabels_ne_panic m _ fun h _ h2 => (hinv.stored h).mpr (by omega)

/-- Along every run of `try_accept_block` and `try_revert` calls that succeed
or change nothing, the ledger labels every height up to the tip and nothing
above, the tip's label is the one stored at its height, and the labels follow
the rules of rolling finality; so the scan of `rolling_finality` for the next
block neither panics nor meets a `Final` label after an `Attested` one. -/
theorem labels_follow_rolling_finality {g : Block} {p : Provisioners} {a : Acceptor}
    {pnis : Nat → Option UInt8} (hrun : Run cfg (SucceedsOrKeeps cfg) g p a pnis) :
    LabelInv cfg a pnis ∧
      (∀ pni tipIsFinal blk o m, blk.header.height = a.tip.block.header.height + 1 →
        rollingFinality cfg pni tipIsFinal blk a.db o ≠ .error (.panic m)) ∧
      (a.tip.label ≠ .final → ∀ h, h ≤ a.tip.block.header.height →
        (∀ h', h < h' → h' ≤ a.tip.block.header.height →
          ∃ B, a.db.ledger.lookup h' = some (B, .attested)) →
        ∀ B, a.db.ledger.lookup h ≠ some (B, .final)) :=
  have hinv := labelInv_of_run cfg hrun
  ⟨hinv, fun _ _ _ o m hh => rollingFinality_ne_panic cfg hinv hh o m,
    fun htip _ hh habove => hinv.scan_meets_no_final cfg htip hh habove⟩

end

/-- Genesis, a final block at height `1` and an accepted one at height `2`. -/
theorem labels_after_two_accepts :
    ∃ a pnis, Run sampleParams (SucceedsOrKeeps sampleParams) (sampleBlock 0) (fun _ => none)
        a pnis ∧ a.tip.block.header.height = 2 ∧ LabelInv sampleParams a pnis := by
  have r0 : Run sampleParams (SucceedsOrKeeps sampleParams) (sampleBlock 0) (fun _ => none)
      (.genesis (sampleBlock 0) fun _ => none) (fun _ => none) := Run.genesis rfl
  have r2 := (r0.next sampleParams (.acceptBlock (sampleBlock 1)) (sampleOracle 0 1)
    (succeedsOrKeeps_accept rfl) rfl).next sampleParams (.acceptBlock (sampleBlock 2))
    (sampleOracle 1 2) (succeedsOrKeeps_accept rfl) rfl
  exact ⟨_, _, r2, rfl, (labels_follow_rolling_finality sampleParams r2).1⟩

/-- Successful `try_accept_block` calls and any `try_revert` call, whatever it
returns. -/
def AcceptedOrReverted (cfg : Params) (a : Acceptor) (c : Call) (o : Oracle) : Prop :=
  match c with
  | .acceptBlock _ => (c.run cfg a o).2 = .ok ()
  | .revert _ => True
  | .restart _ => False

/-- Accept a final block and an accepted one above it, then revert to the last
finalized state with `get_provisioners` failing in `update_tip`: the deletion
of the accepted block is committed but the tip stays on it, so the tip's
height has no label, and `rolling_finality` for the next attested block
panics. -/
theorem failed_update_tip_leaves_tip_unlabelled :
    ∃ a pnis, Run sampleParams (AcceptedOrReverted sampleParams) (sampleBlock 0) (fun _ => none)
        a pnis ∧
      a.db.ledger.lookup a.tip.block.header.height = none ∧
      (sampleBlock 3).header.height = a.tip.block.header.height + 1 ∧
      (tryAcceptBlock sampleParams a (sampleBlock 3) (sampleOracle 0 3)).2 =
        .error (.panic "Cannot find block label for height: 2") := by
  have r0 : Run sampleParams (AcceptedOrReverted sampleParams) (sampleBlock 0) (fun _ => none)
      (.genesis (sampleBlock 0) fun _ => none) (fun _ => none) := Run.genesis rfl
  have r1 := r0.next sampleParams (.acceptBlock (sampleBlock 1)) (sampleOracle 0 1) rfl rfl
  have r2 := r1.next sampleParams (.acceptBlock (sampleBlock 2)) (sampleOracle 1 2) rfl rfl
  have r3 := r2.next sampleParams (.revert .lastFinalizedState)
    { sampleOracle 0 0 with getProvisioners := fun _ => .error "get_provisioners failed" }
    trivial rfl
  exact ⟨_, _, r3, rfl, rfl, rfl⟩

theorem Db.fetchBlock_of_lookup {t : Db} {o : Oracle}
    (hfault : ∀ hash, o.dbFault (.fetchBlock hash) = none)
    (hunique : ∀ h h' e e', t.ledger.lookup h = some e → t.ledger.lookup h' = some e' →
      e.1.header.hash = e'.1.header.hash → h = h')
    {h : Nat} {B : Block} {l : Label} (hB : t.ledger.lookup h = some (B, l)) :
    t.fetchBlock o B.header.hash = .ok (some B) := by
  obtain ⟨⟨h', B', l'⟩, hfind⟩ : ∃ x, t.ledger.entries.find?
      (fun e => e.2.1.header.hash == B.header.hash) = some x :=
    Option.isSome_iff_exists.mp (List.find?_isSome.mpr ⟨_, AList.mem_lookup_iff.mp hB, by simp⟩)
  have hlook' := AList.mem_lookup_iff.mpr (List.mem_of_find?_eq_some hfind)
  have hhash : B'.header.hash = B.header.hash := by simpa using List.find?_some hfind
  obtain rfl := hunique h h' _ _ hB hlook' hhash.symm
  rw [hB] at hlook'
  cases hlook'
  simp [Db.fetchBlock, hfault, hfind]

theorem latestFinalScan_spec {t : Db} {o : Oracle} (hdb : ∀ c, o.dbFault c = none)
    (hfetch : ∀ h B, t.ledger.lookup h = some (B, .final) →
      t.fetchBlock o B.header.hash = .ok (some B)) :
    ∀ n, (∃ h B, h < n ∧ t.ledger.lookup h = some (B, .final) ∧
        (∀ h' B', h < h' → h' < n → t.ledger.lookup h' ≠ some (B', .final)) ∧
        latestFinalScan t o n = .ok B) ∨
      ((∀ h B, h < n → t.ledger.lookup h ≠ some (B, .final)) ∧
        latestFinalScan t o n = .error (.error "could not find the latest final block"))
  | 0 => .inr ⟨fun _ _ h => absurd h (Nat.not_lt_zero _), rfl⟩
  | n + 1 => by
    by_cases hfin : ∃ B, t.ledger.lookup n = some (B, .final)
    · obtain ⟨B, hB⟩ := hfin
      refine .inl ⟨n, B, Nat.lt_succ_self n, hB, fun h' _ h1 h2 => absurd h2 (by omega), ?_⟩
      simp [latestFinalScan, Db.fetchBlockLabelByHeight, hdb, hB, hfetch n B hB]
    have hne : ∀ B, t.ledger.lookup n ≠ some (B, .final) := fun B h => hfin ⟨B, h⟩
    have hscan : latestFinalScan t o (n + 1) = latestFinalScan t o n := by
      rcases hlook : t.ledger.lookup n with _ | ⟨B, _ | _ | _⟩
      all_goals first
        | exact absurd hlook (hne B)
        | simp [latestFinalScan, Db.fetchBlockLabelByHeight, hdb, hlook]
    rw [hscan]
    rcases latestFinalScan_spec hdb hfetch n with ⟨h, B, hn, hB, habove, hres⟩ | ⟨hnone, hres⟩
    · refine .inl ⟨h, B, by omega, hB, fun h' B' h1 h2 => ?_, hres⟩
      rcases Nat.lt_succ_iff_lt_or_eq.mp h2 with h2 | rfl
      · exact habove h' B' h1 h2
      · exact hne B'
    · refine .inr ⟨fun h B h1 => ?_, hres⟩
      rcases Nat.lt_succ_iff_lt_or_eq.mp h1 with h1 | rfl
      · exact hnone h B h1
      · exact hne B

/-- What `get_latest_final_block` returns, the database not failing and the
hashes of the stored blocks distinct: the tip when it is final, and otherwise
the final block at the greatest height at least two below the tip. The height
just below the tip is never read. -/
theorem getLatestFinalBlock_spec {a : Acceptor} {o : Oracle} (hdb : ∀ c, o.dbFault c = none)
    (hunique : ∀ h h' e e', a.db.ledger.lookup h = some e → a.db.ledger.lookup h' = some e' →
      e.1.header.hash = e'.1.header.hash → h = h') :
    (a.tip.label = .final → getLatestFinalBlock a o = .ok a.tip.block) ∧
      (a.tip.label ≠ .final → 0 < a.tip.block.header.height →
        (∃ h B, h + 2 ≤ a.tip.block.header.height ∧ a.db.ledger.lookup h = some (B, .final) ∧
          (∀ h' B', h < h' → h' + 2 ≤ a.tip.block.header.height →
            a.db.ledger.lookup h' ≠ some (B', .final)) ∧
          getLatestFinalBlock a o = .ok B) ∨
        ((∀ h B, h + 2 ≤ a.tip.block.header.height → a.db.ledger.lookup h ≠ some (B, .final)) ∧
          getLatestFinalBlock a o = .error (.error "could not find the latest final block"))) := by
  refine ⟨fun htip => by simp [getLatestFinalBlock, BlockWithLabel.isFinal, htip],
    fun htip hpos => ?_⟩
  have hscan : getLatestFinalBlock a o = latestFinalScan a.db o (a.tip.block.header.height - 1) := by
    simp [getLatestFinalBlock, BlockWithLabel.isFinal, htip, Nat.pos_iff_ne_zero.mp hpos]
  rw [hscan]
  rcases latestFinalScan_spec hdb (fun h B hB => Db.fetchBlock_of_lookup (fun _ => hdb _) hunique hB)
      (a.tip.block.header.height - 1) with ⟨h, B, h1, hB, habove, hres⟩ | ⟨hnone, hres⟩
  · exact .inl ⟨h, B, by omega, hB, fun h' B' h2 h3 => habove h' B' h2 (by omega), hres⟩
  · exact .inr ⟨fun h B h1 => hnone h B (by omega), hres⟩

section
variable (cfg : Params)

theorem genesis_entry_step {a a' : Acceptor} {c : Call} {o : Oracle} {pnis : Nat → Option UInt8}
    (hinv : LabelInv cfg a pnis) (hc : SucceedsOrKeeps cfg a c o)
    (hstep : step cfg a c o = some a') : a'.db.ledger.lookup 0 = a.db.ledger.lookup 0 := by
  obtain ⟨hrun, -⟩ := step_some cfg hstep
  subst hrun
  obtain ⟨hnot, hok | hkeep⟩ := hc
  · cases c with
    | acceptBlock blk =>
      rcases hr : (tryAcceptBlock cfg a blk o).2 with e | label
      · simp only [Call.run, hr] at hok; cases hok
      · obtain ⟨-, _, -, hh, -, hledger, -⟩ := tryAcceptBlock_ok cfg hr
        show (tryAcceptBlock cfg a blk o).1.db.ledger.lookup 0 = _
        rw [hledger]
        exact AList.lookup_insert_ne (by omega)
    | revert target =>
      obtain ⟨hash, db, blk, label, pl, -, hw, hstate⟩ := tryRevert_ok hok
      obtain ⟨m, hm0, -, -, -, hafter, -⟩ :=
        revertWalk_ok _ _ _ _ _ (fun h e _ => hinv.height_eq h e) hw
      show (tryRevert a target o).1.db.ledger.lookup 0 = _
      rw [hstate]
      exact (hafter 0).trans (if_neg (by omega))
    | restart p => exact absurd rfl (hnot p)
  · rw [hkeep]

theorem genesis_entry_of_run {g : Block} {p : Provisioners} {a : Acceptor}
    {pnis : Nat → Option UInt8} (hrun : Run cfg (SucceedsOrKeeps cfg) g p a pnis) :
    a.db.ledger.lookup 0 = some (g, .final) := by
  induction hrun with
  | genesis => rw [genesis_lookup, if_pos rfl]
  | step hrun hc hstep ih => rw [genesis_entry_step cfg (labelInv_of_run cfg hrun) hc hstep, ih]

/-- What `get_latest_final_block` returns in every state of a run whose calls
succeed or keep the acceptor, the database not failing and the stored hashes
distinct: the tip when it is final; below a tip that is not final, the final
block at the greatest height at least two under it, which from height `2` on
always exists since the genesis block stays final; and above a genesis tip at
height `1` that is not final, the error. -/
theorem latest_final_block_of_run {g : Block} {p : Provisioners} {a : Acceptor}
    {pnis : Nat → Option UInt8} {o : Oracle} (hrun : Run cfg (SucceedsOrKeeps cfg) g p a pnis)
    (hdb : ∀ c, o.dbFault c = none)
    (hunique : ∀ h h' e e', a.db.ledger.lookup h = some e → a.db.ledger.lookup h' = some e' →
      e.1.header.hash = e'.1.header.hash → h = h') :
    (a.tip.label = .final → getLatestFinalBlock a o = .ok a.tip.block) ∧
      (a.tip.label ≠ .final → a.tip.block.header.height = 1 →
        getLatestFinalBlock a o = .error (.error "could not find the latest final block")) ∧
      (a.tip.label ≠ .final → 2 ≤ a.tip.block.header.height →
        ∃ h B, h + 2 ≤ a.tip.block.header.height ∧ a.db.ledger.lookup h = some (B, .final) ∧
          (∀ h' B', h < h' → h' + 2 ≤ a.tip.block.header.height →
            a.db.ledger.lookup h' ≠ some (B', .final)) ∧
          getLatestFinalBlock a o = .ok B) := by
  obtain ⟨hfinal, hlower⟩ := getLatestFinalBlock_spec hdb hunique
  refine ⟨hfinal, fun htip h1 => ?_, fun htip h2 => ?_⟩
  · rcases hlower htip (by omega) with ⟨h, -, hh, -⟩ | ⟨-, hres⟩
    · omega
    · exact hres
  · rcases hlower htip (by omega) with hfound | ⟨hnone, -⟩
    · exact hfound
    · exact absurd (genesis_entry_of_run cfg hrun) (hnone 0 g h2)

end

/-- Genesis, a final block at height `1` and an accepted block at height `2`:
the genesis block is the latest final block found. -/
theorem latest_final_block_two_below_tip :
    let a := (tryAcceptBlock sampleParams (tryAcceptBlock sampleParams
      (.genesis (sampleBlock 0) fun _ => none) (sampleBlock 1) (sampleOracle 0 1)).1
      (sampleBlock 2) (sampleOracle 1 2)).1
    (∃ pnis, Run sampleParams (SucceedsOrKeeps sampleParams) (sampleBlock 0) (fun _ => none)
        a pnis) ∧ (∀ c, (sampleOracle 0 0).dbFault c = none) ∧
      (∀ h h' e e', a.db.ledger.lookup h = some e → a.db.ledger.lookup h' = some e' →
        e.1.header.hash = e'.1.header.hash → h = h') ∧
      a.tip.label ≠ .final ∧ a.tip.block.header.height = 2 ∧
      getLatestFinalBlock a (sampleOracle 0 0) = .ok (sampleBlock 0) := by
  intro a
  have r0 : Run sampleParams (SucceedsOrKeeps sampleParams) (sampleBlock 0) (fun _ => none)
      (.genesis (sampleBlock 0) fun _ => none) (fun _ => none) := Run.genesis rfl
  obtain ⟨pnis, hrun⟩ : ∃ pnis, Run sampleParams (SucceedsOrKeeps sampleParams) (sampleBlock 0)
      (fun _ => none) a pnis :=
    ⟨_, (r0.next sampleParams (.acceptBlock (sampleBlock 1)) (sampleOracle 0 1)
      (succeedsOrKeeps_accept rfl) rfl).next sampleParams (.acceptBlock (sampleBlock 2))
      (sampleOracle 1 2) (succeedsOrKeeps_accept rfl) rfl⟩
  have htip : a.tip.block.header.height = 2 := rfl
  have hdb : ∀ c, (sampleOracle 0 0).dbFault c = none := fun _ => rfl
  have hhash : ∀ h e, a.db.ledger.lookup h = some e → e.1.header.hash = h := by
    intro h e he
    have hle := (labelInv_of_run sampleParams hrun).le_tip sampleParams he
    rcases (by omega : h = 0 ∨ h = 1 ∨ h = 2) with rfl | rfl | rfl <;> (cases he; rfl)
  have hunique : ∀ h h' e e', a.db.ledger.lookup h = some e → a.db.ledger.lookup h' = some e' →
      e.1.header.hash = e'.1.header.hash → h = h' := fun h h' e e' he he' hh =>
    (hhash h e he).symm.trans (hh.trans (hhash h' e' he'))
  obtain ⟨h, B, hh, hB, -, hget⟩ :=
    (latest_final_block_of_run sampleParams hrun hdb hunique).2.2 (by decide) (by omega)
  obtain rfl : h = 0 := by omega
  cases hB
  exact ⟨⟨_, hrun⟩, hdb, hunique, by decide, htip, hget⟩

/-- A tip at height `1` that is not final, over the final genesis block: no
final block is found. A tip at height `2` that is not final, over a final
block at height `1`: the genesis block is returned instead. -/
theorem latest_final_block_skips_parent_of_tip :
    (∃ a pnis, Run sampleParams (SucceedsOrKeeps sampleParams) (sampleBlock 0) (fun _ => none)
        a pnis ∧ a.tip.block.header.height = 1 ∧ a.tip.label ≠ .final ∧
      a.db.ledger.lookup 0 = some (sampleBlock 0, .final) ∧
      getLatestFinalBlock a (sampleOracle 0 0) =
        .error (.error "could not find the latest final block")) ∧
    (∃ a pnis, Run sampleParams (SucceedsOrKeeps sampleParams) (sampleBlock 0) (fun _ => none)
        a pnis ∧ a.tip.block.header.height = 2 ∧ a.tip.label ≠ .final ∧
      a.db.ledger.lookup 1 = some (sampleBlock 1, .final) ∧
      getLatestFinalBlock a (sampleOracle 0 0) = .ok (sampleBlock 0)) := by
  have r0 : Run sampleParams (SucceedsOrKeeps sampleParams) (sampleBlock 0) (fun _ => none)
      (.genesis (sampleBlock 0) fun _ => none) (fun _ => none) := Run.genesis rfl
  have accepted := r0.next sampleParams (.acceptBlock (sampleBlock 1)) (sampleOracle 1 1)
    (succeedsOrKeeps_accept rfl) rfl
  have final := r0.next sampleParams (.acceptBlock (sampleBlock 1)) (sampleOracle 0 1)
    (succeedsOrKeeps_accept rfl) rfl
  have above := final.next sampleParams (.acceptBlock (sampleBlock 2)) (sampleOracle 1 2)
    (succeedsOrKeeps_accept rfl) rfl
  exact ⟨⟨_, _, accepted, rfl, by decide, rfl, rfl⟩, ⟨_, _, above, rfl, by decide, rfl, rfl⟩⟩

end RuskProofs.Chain
