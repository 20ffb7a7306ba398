import Mathlib.Data.Nat.Bitwise
import Mathlib.Algebra.Order.Ring.Nat

/-!
Quorum verification of `consensus/src/quorum/verifiers.rs`: `verifyQuorum`,
`verifyStepVotes`, `verifyVotes`, `verifyStepSignature` and `aggregatePks`
follow the functions of the same names. A `StepVotes` bitset selects members
of the step's committee; their multiplicities must reach the quorum of the
vote, and the aggregate BLS signature must verify under the aggregate of the
selected keys. BLS, the committee draw and the byte encodings of headers and
votes are external and enter as parameters; the header keeps the fields the
verifier reads itself, the rest reaches it only through `signable`. Two
bitsets that both reach their quorums select common seats, which is why two
`Valid` quorums for different blocks need more than a third of the committee
to sign both.
-/

namespace RuskProofs.QuorumVerifiers

inductive StepName where
  | proposal
  | validation
  | ratification
deriving DecidableEq

inductive Vote where
  | noCandidate
  | valid (hash : Nat)
  | invalid (hash : Nat)
  | noQuorum
deriving DecidableEq

inductive StepSigError where
  | voteSetTooSmall
  | emptyApk
  | invalidType
  | bls (code : Nat)
deriving DecidableEq

structure ConsensusHeader where
  round : UInt64
  iteration : UInt8
  prevBlockHash : Nat
deriving DecidableEq

structure StepVotes where
  bitset : UInt64
  aggregateSignature : List UInt8
deriving DecidableEq

/-- Modelled from the spec: a committee is the ordered list of members drawn
by sortition, each with its multiplicity; bit `i` of a `StepVotes` bitset
stands for the member at position `i`. -/
structure Committee where
  members : List (Nat × Nat)
deriving DecidableEq

def selectBits (bitset : Nat) : Nat → List (Nat × Nat) → List (Nat × Nat)
  | _, [] => []
  | i, m :: ms => if bitset.testBit i then m :: selectBits bitset (i + 1) ms
    else selectBits bitset (i + 1) ms

def Committee.intersect (c : Committee) (bitset : UInt64) : List (Nat × Nat) :=
  selectBits bitset.toNat 0 c.members

def Committee.totalOccurrences (_ : Committee) (sub : List (Nat × Nat)) : Nat :=
  (sub.map Prod.snd).sum

def Committee.size (c : Committee) : Nat :=
  (c.members.map Prod.snd).sum

/-- Modelled from the spec: super-majority `⌈2·size/3⌉ + 1`. -/
def Committee.superMajorityQuorum (c : Committee) : Nat :=
  (2 * c.size + 2) / 3 + 1

/-- Modelled from the spec: simple majority `⌊size/2⌋ + 1`. -/
def Committee.majorityQuorum (c : Committee) : Nat :=
  c.size / 2 + 1

structure QuorumResult where
  total : Nat
  targetQuorum : Nat

def QuorumResult.quorumReached (q : QuorumResult) : Bool :=
  decide (q.targetQuorum ≤ q.total)

/-- BLS aggregation and verification, the byte encodings the signed message is
made of, and the `SIGN_SEED` constants of the two voting steps. -/
structure Crypto where
  Apk : Type
  Sig : Type
  apkFrom : Nat → Apk
  aggregate : Apk → List Nat → Except StepSigError Apk
  sigFromBytes : List UInt8 → Except StepSigError Sig
  verify : Apk → Sig → List UInt8 → Except StepSigError Unit
  signable : ConsensusHeader → List UInt8
  voteBytes : Vote → List UInt8
  validationSignSeed : List UInt8
  ratificationSignSeed : List UInt8

variable (cx : Crypto)

def aggregatePks (sub : List (Nat × Nat)) : Except StepSigError cx.Apk :=
  match sub.map Prod.fst with
  | first :: rest => cx.aggregate (cx.apkFrom first) rest
  | [] => .error .emptyApk

def signSeed : StepName → Option (List UInt8)
  | .validation => some cx.validationSignSeed
  | .ratification => some cx.ratificationSignSeed
  | .proposal => none

def verifyStepSignature (header : ConsensusHeader) (step : StepName) (vote : Vote)
    (apk : cx.Apk) (signature : List UInt8) : Except StepSigError Unit := do
  let sign_seed ← match signSeed cx step with
    | some seed => pure seed
    | none => throw .invalidType
  let sig ← cx.sigFromBytes signature
  let msg := cx.signable header ++ sign_seed ++ cx.voteBytes vote
  cx.verify apk sig msg

def targetQuorum (vote : Vote) (committee : Committee) : Nat :=
  match vote with
  | .valid _ => committee.superMajorityQuorum
  | _ => committee.majorityQuorum

def verifyVotes (header : ConsensusHeader) (step : StepName) (vote : Vote)
    (stepVotes : StepVotes) (committee : Committee) : Except StepSigError QuorumResult := do
  let bitset := stepVotes.bitset
  let signature := stepVotes.aggregateSignature
  let subCommittee := committee.intersect bitset
  let total := committee.totalOccurrences subCommittee
  let quorumResult : QuorumResult := ⟨total, targetQuorum vote committee⟩
  let skipQuorum := step = .validation ∧ vote = .noQuorum
  if ¬skipQuorum ∧ quorumResult.quorumReached = false then
    throw .voteSetTooSmall
  if bitset > 0 then
    let apk ← aggregatePks cx subCommittee
    verifyStepSignature cx header step vote apk signature
  pure quorumResult

structure SortitionConfig where
  seed : Nat
  round : UInt64
  iteration : UInt8
  step : StepName
  exclusionList : List Nat

structure CommitteeSet where
  getGenerator : UInt8 → Nat → UInt64 → Nat
  getOrCreate : SortitionConfig → Committee
  maxIter : UInt8

/-- The committee `verify_step_votes` checks a step against: it excludes the
iteration's generator and, below the last iteration, the next one. -/
def stepCommittee (committeesSet : CommitteeSet) (header : ConsensusHeader) (seed : Nat)
    (step : StepName) : Committee :=
  let round := header.round
  let iteration := header.iteration
  let generator := committeesSet.getGenerator iteration seed round
  let exclusionList := if iteration < committeesSet.maxIter then
      [generator, committeesSet.getGenerator (iteration + 1) seed round]
    else [generator]
  committeesSet.getOrCreate ⟨seed, round, iteration, step, exclusionList⟩

def verifyStepVotes (committeesSet : CommitteeSet) (header : ConsensusHeader) (vote : Vote)
    (sv : StepVotes) (seed : Nat) (step : StepName) :
    Except StepSigError (QuorumResult × Committee) := do
  let committee := stepCommittee committeesSet header seed step
  let quorumResult ← verifyVotes cx header step vote sv committee
  pure (quorumResult, committee)

structure Attestation where
  validation : StepVotes
  ratification : StepVotes

structure Quorum where
  header : ConsensusHeader
  vote : Vote
  att : Attestation

def verifyQuorum (quorum : Quorum) (committeesSet : CommitteeSet) (seed : Nat) :
    Except StepSigError Unit := do
  let _ ← verifyStepVotes cx committeesSet quorum.header quorum.vote quorum.att.validation seed
    .validation
  let _ ← verifyStepVotes cx committeesSet quorum.header quorum.vote quorum.att.ratification seed
    .ratification
  pure ()

theorem selectBits_zero (i : Nat) (ms : List (Nat × Nat)) : selectBits 0 i ms = [] := by
  induction ms generalizing i with
  | nil => rfl
  | cons m ms ih => simp [selectBits, ih]

@[simp] theorem Committee.intersect_zero (c : Committee) : c.intersect 0 = [] :=
  selectBits_zero 0 c.members

theorem uint64_pos_of_ne_zero {x : UInt64} (h : x ≠ 0) : 0 < x := by
  rw [UInt64.lt_def, BitVec.lt_def]
  exact Nat.pos_of_ne_zero fun h0 =>
    h (UInt64.eq_of_toBitVec_eq (BitVec.eq_of_toNat_eq (by simpa using h0)))

theorem targetQuorum_pos (vote : Vote) (c : Committee) : 0 < targetQuorum vote c := by
  cases vote <;> simp [targetQuorum, Committee.superMajorityQuorum, Committee.majorityQuorum]

/-- The aggregate signature verifies over `signable(header) ++ SIGN_SEED ++ vote`,
with the seed of the Validation or the Ratification step, under the key the
first selected member's key aggregates with the others'. -/
def SignatureVerified (header : ConsensusHeader) (step : StepName) (vote : Vote)
    (sv : StepVotes) (committee : Committee) : Prop :=
  ∃ first rest apk sig, (committee.intersect sv.bitset).map Prod.fst = first :: rest ∧
    cx.aggregate (cx.apkFrom first) rest = .ok apk ∧
    cx.sigFromBytes sv.aggregateSignature = .ok sig ∧
    (step = .validation ∧
        cx.verify apk sig (cx.signable header ++ cx.validationSignSeed ++ cx.voteBytes vote) =
          .ok () ∨
      step = .ratification ∧
        cx.verify apk sig (cx.signable header ++ cx.ratificationSignSeed ++ cx.voteBytes vote) =
          .ok ())

/-- What a successful `verify_votes` guarantees. Unless the step is a
Validation on `NoQuorum`, the selected members reach a super-majority on a
`Valid` vote and a majority on any other, there is at least one of them, and
the signature verifies; in every case a non-zero bitset has its signature
verified. -/
def VotesSound (header : ConsensusHeader) (step : StepName) (vote : Vote) (sv : StepVotes)
    (committee : Committee) : Prop :=
  (¬(step = .validation ∧ vote = .noQuorum) →
      (∀ hash, vote = .valid hash →
        committee.superMajorityQuorum ≤ committee.totalOccurrences (committee.intersect sv.bitset)) ∧
      ((∀ hash, vote ≠ .valid hash) →
        committee.majorityQuorum ≤ committee.totalOccurrences (committee.intersect sv.bitset)) ∧
      committee.intersect sv.bitset ≠ [] ∧ SignatureVerified cx header step vote sv committee) ∧
    (sv.bitset ≠ 0 → SignatureVerified cx header step vote sv committee)

theorem aggregatePks_ok {sub : List (Nat × Nat)} {apk : cx.Apk}
    (h : aggregatePks cx sub = .ok apk) :
    ∃ first rest, sub.map Prod.fst = first :: rest ∧ cx.aggregate (cx.apkFrom first) rest = .ok apk := by
  unfold aggregatePks at h
  split at h
  · exact ⟨_, _, ‹_›, h⟩
  · cases h

theorem verifyStepSignature_ok {header : ConsensusHeader} {step : StepName} {vote : Vote}
    {apk : cx.Apk} {signature : List UInt8}
    (h : verifyStepSignature cx header step vote apk signature = .ok ()) :
    ∃ sig, cx.sigFromBytes signature = .ok sig ∧
      (step = .validation ∧
          cx.verify apk sig (cx.signable header ++ cx.validationSignSeed ++ cx.voteBytes vote) =
            .ok () ∨
        step = .ratification ∧
          cx.verify apk sig (cx.signable header ++ cx.ratificationSignSeed ++ cx.voteBytes vote) =
            .ok ()) := by
  rcases hsig : cx.sigFromBytes signature with e | sig <;>
    cases step <;> simp_all [verifyStepSignature, signSeed, bind, Except.bind, pure, Except.pure,
      throw, throwThe, MonadExceptOf.throw]

theorem verifyVotes_ok {header : ConsensusHeader} {step : StepName} {vote : Vote}
    {sv : StepVotes} {committee : Committee} {qr : QuorumResult}
    (h : verifyVotes cx header step vote sv committee = .ok qr) :
    (¬(step = .validation ∧ vote = .noQuorum) →
      targetQuorum vote committee ≤ committee.totalOccurrences (committee.intersect sv.bitset)) ∧
    (sv.bitset ≠ 0 → SignatureVerified cx header step vote sv committee) := by
  unfold verifyVotes at h
  by_cases hq : ¬(step = .validation ∧ vote = .noQuorum) ∧
      (QuorumResult.quorumReached ⟨committee.totalOccurrences (committee.intersect sv.bitset),
        targetQuorum vote committee⟩) = false
  · simp only [hq, ↓reduceIte] at h; cases h
  simp only [hq, ↓reduceIte] at h
  refine ⟨fun hskip => ?_, fun hb => ?_⟩
  · simpa [QuorumResult.quorumReached, hskip] using hq
  · simp only [gt_iff_lt, uint64_pos_of_ne_zero hb, ↓reduceIte] at h
    cases ha : aggregatePks cx (committee.intersect sv.bitset) with
    | error e => rw [ha] at h; cases h
    | ok apk =>
        cases hv : verifyStepSignature cx header step vote apk sv.aggregateSignature with
        | error e => rw [ha] at h; simp only [bind, Except.bind, hv] at h; cases h
        | ok u =>
            obtain ⟨first, rest, hkeys, hagg⟩ := aggregatePks_ok cx ha
            obtain ⟨sig, hsig, hver⟩ := verifyStepSignature_ok cx hv
            exact ⟨first, rest, apk, sig, hkeys, hagg, hsig, hver⟩

theorem verifyVotes_sound {header : ConsensusHeader} {step : StepName} {vote : Vote}
    {sv : StepVotes} {committee : Committee} {qr : QuorumResult}
    (h : verifyVotes cx header step vote sv committee = .ok qr) :
    VotesSound cx header step vote sv committee := by
  obtain ⟨hquorum, hsig⟩ := verifyVotes_ok cx h
  refine ⟨fun hskip => ?_, hsig⟩
  have hq := hquorum hskip
  have hne : committee.intersect sv.bitset ≠ [] := by
    intro he
    have := targetQuorum_pos vote committee
    simp [he, Committee.totalOccurrences] at hq
    omega
  refine ⟨fun hash hv => ?_, fun hv => ?_, hne, hsig fun hb => hne ?_⟩
  · subst hv; exact hq
  · cases vote <;> first | exact absurd rfl (hv _) | exact hq
  · rw [hb, Committee.intersect_zero]

theorem verifyStepVotes_sound {committeesSet : CommitteeSet} {header : ConsensusHeader}
    {vote : Vote} {sv : StepVotes} {seed : Nat} {step : StepName}
    {r : QuorumResult × Committee}
    (h : verifyStepVotes cx committeesSet header vote sv seed step = .ok r) :
    VotesSound cx header step vote sv (stepCommittee committeesSet header seed step) := by
  unfold verifyStepVotes at h
  cases hv : verifyVotes cx header step vote sv (stepCommittee committeesSet header seed step) with
  | error e => simp only [hv, bind, Except.bind] at h; cases h
  | ok qr => exact verifyVotes_sound cx hv

theorem verifyQuorum_ok {quorum : Quorum} {committeesSet : CommitteeSet} {seed : Nat}
    (h : verifyQuorum cx quorum committeesSet seed = .ok ()) :
    VotesSound cx quorum.header .validation quorum.vote quorum.att.validation
        (stepCommittee committeesSet quorum.header seed .validation) ∧
      VotesSound cx quorum.header .ratification quorum.vote quorum.att.ratification
        (stepCommittee committeesSet quorum.header seed .ratification) := by
  unfold verifyQuorum at h
  cases hv : verifyStepVotes cx committeesSet quorum.header quorum.vote quorum.att.validation
      seed .validation with
  | error e => simp only [hv, bind, Except.bind] at h; cases h
  | ok rv =>
      cases hr : verifyStepVotes cx committeesSet quorum.header quorum.vote
          quorum.att.ratification seed .ratification with
      | error e => simp only [hv, hr, bind, Except.bind] at h; cases h
      | ok rr => exact ⟨verifyStepVotes_sound cx hv, verifyStepVotes_sound cx hr⟩

/-- `verify_votes` passes only for a non-empty sub-committee that reaches the
quorum of the vote and whose aggregate key verifies the signature over the
step's message, unless it is a skipped Validation on `NoQuorum`, where a
non-zero bitset still has its signature verified; and `verify_quorum` passes
only if this holds for both its StepVotes against their committees. -/
theorem verify_votes_quorum_sound :
    (∀ header step vote sv committee qr,
      verifyVotes cx header step vote sv committee = .ok qr →
        VotesSound cx header step vote sv committee) ∧
    (∀ quorum committeesSet seed, verifyQuorum cx quorum committeesSet seed = .ok () →
      VotesSound cx quorum.header .validation quorum.vote quorum.att.validation
          (stepCommittee committeesSet quorum.header seed .validation) ∧
        VotesSound cx quorum.header .ratification quorum.vote quorum.att.ratification
          (stepCommittee committeesSet quorum.header seed .ratification)) :=
  ⟨fun _ _ _ _ _ _ h => verifyVotes_sound cx h, fun _ _ _ h => verifyQuorum_ok cx h⟩

theorem selectBits_seats_le (b i : Nat) (ms : List (Nat × Nat)) :
    ((selectBits b i ms).map Prod.snd).sum ≤ (ms.map Prod.snd).sum := by
  induction ms generalizing i with
  | nil => simp [selectBits]
  | cons m ms ih =>
    have := ih (i + 1)
    unfold selectBits
    split <;> simp only [List.map_cons, List.sum_cons] <;> omega

theorem selectBits_or_and (b1 b2 i : Nat) (ms : List (Nat × Nat)) :
    ((selectBits (b1 ||| b2) i ms).map Prod.snd).sum +
        ((selectBits (b1 &&& b2) i ms).map Prod.snd).sum =
      ((selectBits b1 i ms).map Prod.snd).sum + ((selectBits b2 i ms).map Prod.snd).sum := by
  induction ms generalizing i with
  | nil => rfl
  | cons m ms ih =>
    have := ih (i + 1)
    simp only [selectBits, Nat.testBit_or, Nat.testBit_and]
    cases b1.testBit i <;> cases b2.testBit i <;> simp <;> omega

theorem selectBits_seats_mono {b1 b2 : Nat} (hsub : ∀ j, b1.testBit j → b2.testBit j)
    (i : Nat) (ms : List (Nat × Nat)) :
    ((selectBits b1 i ms).map Prod.snd).sum ≤ ((selectBits b2 i ms).map Prod.snd).sum := by
  induction ms generalizing i with
  | nil => rfl
  | cons m ms ih =>
    have := ih (i + 1)
    have hi := hsub i
    simp only [selectBits]
    cases h1 : b1.testBit i <;> cases h2 : b2.testBit i
    · simp only [Bool.false_eq_true, ↓reduceIte]; omega
    · simp only [Bool.false_eq_true, ↓reduceIte, List.map_cons, List.sum_cons]; omega
    · exact absurd (hi h1) (by simp [h2])
    · simp only [↓reduceIte, List.map_cons, List.sum_cons]; omega

theorem Committee.totalOccurrences_intersect_le (c : Committee) (b : UInt64) :
    c.totalOccurrences (c.intersect b) ≤ c.size :=
  selectBits_seats_le _ _ _

theorem Committee.intersect_or_and (c : Committee) (b1 b2 : UInt64) :
    c.totalOccurrences (c.intersect (b1 ||| b2)) + c.totalOccurrences (c.intersect (b1 &&& b2)) =
      c.totalOccurrences (c.intersect b1) + c.totalOccurrences (c.intersect b2) :=
  selectBits_or_and b1.toNat b2.toNat 0 c.members

def Committee.sharedSeats (c : Committee) (b1 b2 : UInt64) : Nat :=
  c.totalOccurrences (c.intersect (b1 &&& b2))

theorem Committee.quorums_share_seats {c : Committee} {b1 b2 : UInt64} {q1 q2 : Nat}
    (h1 : q1 ≤ c.totalOccurrences (c.intersect b1))
    (h2 : q2 ≤ c.totalOccurrences (c.intersect b2)) :
    q1 + q2 ≤ c.size + c.sharedSeats b1 b2 := by
  have hsum := c.intersect_or_and b1 b2
  have hle := c.totalOccurrences_intersect_le (b1 ||| b2)
  unfold Committee.sharedSeats
  omega

/-- Two super-majorities share more than a third of the seats. -/
theorem Committee.superMajorities_share_third {c : Committee} {b1 b2 : UInt64}
    (h1 : c.superMajorityQuorum ≤ c.totalOccurrences (c.intersect b1))
    (h2 : c.superMajorityQuorum ≤ c.totalOccurrences (c.intersect b2)) :
    c.size < 3 * c.sharedSeats b1 b2 := by
  have := c.quorums_share_seats h1 h2
  unfold Committee.superMajorityQuorum at this
  omega

def threeSeats : Committee := ⟨[(1, 1), (2, 1), (3, 1)]⟩

/-- Setting more bits never lowers the total that `verify_votes` compares with
the quorum: a quorum reached by a bitset is reached by every bitset containing
it. -/
theorem total_occurrences_monotone (c : Committee) {b1 b2 : UInt64} (hsub : b1 &&& b2 = b1) :
    c.totalOccurrences (c.intersect b1) ≤ c.totalOccurrences (c.intersect b2) := by
  have hbits : ∀ j, b1.toNat.testBit j → b2.toNat.testBit j := fun j hj => by
    simpa only [UInt64.and_toNat, Nat.testBit_and, hj, Bool.true_and] using
      congrArg (fun b : UInt64 => b.toNat.testBit j) hsub
  exact selectBits_seats_mono hbits 0 c.members

theorem three_seats_total_grows :
    (3 : UInt64) &&& 7 = 3 ∧
      threeSeats.totalOccurrences (threeSeats.intersect 3) ≤
        threeSeats.totalOccurrences (threeSeats.intersect 7) := by
  have hsub : (3 : UInt64) &&& 7 = 3 := by decide
  exact ⟨hsub, total_occurrences_monotone threeSeats hsub⟩

/-- Two StepVotes that pass `verify_votes` against one committee, neither as a
skipped Validation on `NoQuorum`, have set bits in common on at least the sum
of their two quorums minus the committee's size seats. -/
theorem verify_votes_quorums_overlap {committee : Committee} {h1 h2 : ConsensusHeader}
    {s1 s2 : StepName} {v1 v2 : Vote} {sv1 sv2 : StepVotes} {qr1 qr2 : QuorumResult}
    (hv1 : verifyVotes cx h1 s1 v1 sv1 committee = .ok qr1)
    (hv2 : verifyVotes cx h2 s2 v2 sv2 committee = .ok qr2)
    (hs1 : ¬(s1 = .validation ∧ v1 = .noQuorum)) (hs2 : ¬(s2 = .validation ∧ v2 = .noQuorum)) :
    targetQuorum v1 committee + targetQuorum v2 committee ≤
      committee.size + committee.sharedSeats sv1.bitset sv2.bitset :=
  Committee.quorums_share_seats ((verifyVotes_ok cx hv1).1 hs1) ((verifyVotes_ok cx hv2).1 hs2)

/-- A BLS stand-in under which every signature verifies. -/
def acceptingCrypto : Crypto :=
  ⟨Unit, Unit, fun _ => (), fun a _ => .ok a, fun _ => .ok (), fun _ _ _ => .ok (),
    fun _ => [], fun _ => [], [], []⟩

theorem full_committee_votes_overlap :
    verifyVotes acceptingCrypto ⟨1, 0, 0⟩ .validation (.valid 1) ⟨7, []⟩ threeSeats = .ok ⟨3, 3⟩ ∧
      verifyVotes acceptingCrypto ⟨1, 0, 0⟩ .ratification .noCandidate ⟨3, []⟩ threeSeats =
        .ok ⟨2, 2⟩ ∧
      ¬(StepName.validation = .validation ∧ Vote.valid 1 = .noQuorum) ∧
      ¬(StepName.ratification = .validation ∧ Vote.noCandidate = .noQuorum) ∧
      targetQuorum (.valid 1) threeSeats + targetQuorum .noCandidate threeSeats ≤
        threeSeats.size + threeSeats.sharedSeats 7 3 := by
  have h7 : Committee.intersect ⟨[(1, 1), (2, 1), (3, 1)]⟩ 7 = [(1, 1), (2, 1), (3, 1)] := by decide
  have h3 : Committee.intersect ⟨[(1, 1), (2, 1), (3, 1)]⟩ 3 = [(1, 1), (2, 1)] := by decide
  have hv1 : verifyVotes acceptingCrypto ⟨1, 0, 0⟩ .validation (.valid 1) ⟨7, []⟩ threeSeats =
      .ok ⟨3, 3⟩ := by
    simp [verifyVotes, h7, Committee.totalOccurrences, targetQuorum, Committee.superMajorityQuorum,
      Committee.size, threeSeats, QuorumResult.quorumReached, aggregatePks, acceptingCrypto,
      verifyStepSignature, signSeed]
    rfl
  have hv2 : verifyVotes acceptingCrypto ⟨1, 0, 0⟩ .ratification .noCandidate ⟨3, []⟩ threeSeats =
      .ok ⟨2, 2⟩ := by
    simp [verifyVotes, h3, Committee.totalOccurrences, targetQuorum, Committee.majorityQuorum,
      Committee.size, threeSeats, QuorumResult.quorumReached, aggregatePks, acceptingCrypto,
      verifyStepSignature, signSeed]
    rfl
  have hoverlap := verify_votes_quorums_overlap acceptingCrypto hv1 hv2 (by decide) (by decide)
  exact ⟨hv1, hv2, by decide, by decide, hoverlap⟩

theorem stepCommittee_congr (committeesSet : CommitteeSet) {hd1 hd2 : ConsensusHeader}
    (hround : hd1.round = hd2.round) (hiter : hd1.iteration = hd2.iteration) (seed : Nat)
    (step : StepName) :
    stepCommittee committeesSet hd1 seed step = stepCommittee committeesSet hd2 seed step := by
  simp only [stepCommittee, hround, hiter]

/-- Two quorums of one round and iteration whose votes are both `Valid`, for
whatever block hashes, pass `verify_quorum` only if in each of the two steps
more than a third of the committee's seats are set in both attestations. -/
theorem conflicting_valid_quorums_overlap {committeesSet : CommitteeSet} {seed : Nat}
    {q1 q2 : Quorum} {hash1 hash2 : Nat}
    (h1 : verifyQuorum cx q1 committeesSet seed = .ok ())
    (h2 : verifyQuorum cx q2 committeesSet seed = .ok ())
    (hround : q1.header.round = q2.header.round) (hiter : q1.header.iteration = q2.header.iteration)
    (hv1 : q1.vote = .valid hash1) (hv2 : q2.vote = .valid hash2) :
    (stepCommittee committeesSet q1.header seed .validation).size <
        3 * (stepCommittee committeesSet q1.header seed .validation).sharedSeats
          q1.att.validation.bitset q2.att.validation.bitset ∧
      (stepCommittee committeesSet q1.header seed .ratification).size <
        3 * (stepCommittee committeesSet q1.header seed .ratification).sharedSeats
          q1.att.ratification.bitset q2.att.ratification.bitset := by
  have hc := stepCommittee_congr committeesSet hround.symm hiter.symm seed
  obtain ⟨hV1, hR1⟩ := verifyQuorum_ok cx h1
  obtain ⟨hV2, hR2⟩ := verifyQuorum_ok cx h2
  rw [hc] at hV2 hR2
  have hskip : ∀ {step : StepName} {hash : Nat},
      ¬(step = .validation ∧ Vote.valid hash = .noQuorum) :=
    fun ⟨_, h⟩ => by cases h
  rw [hv1] at hV1 hR1
  rw [hv2] at hV2 hR2
  exact ⟨Committee.superMajorities_share_third ((hV1.1 hskip).1 _ rfl) ((hV2.1 hskip).1 _ rfl),
    Committee.superMajorities_share_third ((hR1.1 hskip).1 _ rfl) ((hR2.1 hskip).1 _ rfl)⟩

def threeSeatsSet : CommitteeSet := ⟨fun _ _ _ => 0, fun _ => threeSeats, 1⟩

theorem full_committee_signs_two_blocks :
    verifyQuorum acceptingCrypto ⟨⟨1, 0, 0⟩, .valid 1, ⟨⟨7, []⟩, ⟨7, []⟩⟩⟩ threeSeatsSet 0 =
        .ok () ∧
      verifyQuorum acceptingCrypto ⟨⟨1, 0, 0⟩, .valid 2, ⟨⟨7, []⟩, ⟨7, []⟩⟩⟩ threeSeatsSet 0 =
        .ok () ∧
      threeSeats.size < 3 * threeSeats.sharedSeats 7 7 ∧
      threeSeats.size < 3 * threeSeats.sharedSeats 7 7 := by
  have h7 : Committee.intersect ⟨[(1, 1), (2, 1), (3, 1)]⟩ 7 = [(1, 1), (2, 1), (3, 1)] := by decide
  have hq : ∀ hash, verifyQuorum acceptingCrypto ⟨⟨1, 0, 0⟩, .valid hash, ⟨⟨7, []⟩, ⟨7, []⟩⟩⟩
      threeSeatsSet 0 = .ok () := fun hash => by
    simp [verifyQuorum, verifyStepVotes, stepCommittee, threeSeatsSet, verifyVotes, h7,
      Committee.totalOccurrences, targetQuorum, Committee.superMajorityQuorum, Committee.size,
      threeSeats, QuorumResult.quorumReached, aggregatePks, acceptingCrypto, verifyStepSignature,
      signSeed]
    rfl
  have hoverlap := conflicting_valid_quorums_overlap acceptingCrypto (hq 1) (hq 2) rfl rfl rfl rfl
  exact ⟨hq 1, hq 2, hoverlap⟩

end RuskProofs.QuorumVerifiers
