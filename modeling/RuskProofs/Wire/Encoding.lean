import RuskProofs.Wire.Reader

/-!
The `Serializable` implementations of `node-data/src/encoding.rs`. The codecs
they call but do not define (votes, the `QuorumType` byte conversion,
consensus headers, signatures info, the hashable part of a block header, the
Phoenix transaction and the economic mode) and the block hash are the fields
of `Externals`; every result below holds for all of them. The `From<u8>`
conversion of `QuorumType` is not in the source, so what `QuorumType`,
`ValidationResult` and `Ratification` do is stated apart, as a function of
what that conversion does.
-/

namespace RuskProofs.Wire

/-- The codecs and the hash that `encoding.rs` uses from elsewhere. -/
structure Externals where
  Vote : Type
  writeVote : Vote → Bytes
  readVote : Reader Vote
  QuorumType : Type
  /-- `*self as u8`. -/
  quorumTypeAsU8 : QuorumType → UInt8
  /-- `From<u8> for QuorumType`; an `error` stands for a panic with that message. -/
  quorumTypeFromU8 : UInt8 → Except String QuorumType
  ConsensusHeader : Type
  writeConsensusHeader : ConsensusHeader → Bytes
  readConsensusHeader : Reader ConsensusHeader
  SignInfo : Type
  writeSignInfo : SignInfo → Bytes
  readSignInfo : Reader SignInfo
  /-- The header fields `marshal_hashable` writes. -/
  Hashable : Type
  marshalHashable : Hashable → Bytes
  unmarshalHashable : Reader Hashable
  /-- The hash of a header's hashable bytes. -/
  hash : Bytes → FixedBytes 32
  PhoenixTransaction : Type
  toVarBytes : PhoenixTransaction → Bytes
  fromSlice : Bytes → Option PhoenixTransaction
  EconomicMode : Type
  ecoModeLen : Nat
  ecoModeWrite : EconomicMode → FixedBytes ecoModeLen
  ecoModeRead : FixedBytes ecoModeLen → EconomicMode

structure StepVotes where
  bitset : UInt64
  aggregateSignature : FixedBytes 48
deriving DecidableEq

inductive RatificationResult (V : Type) where
  | fail (vote : V)
  | success (vote : V)
deriving DecidableEq

structure Certificate (V : Type) where
  result : RatificationResult V
  validation : StepVotes
  ratification : StepVotes
deriving DecidableEq

structure IterationsInfo (V : Type) where
  certList : List (Option (Certificate V × FixedBytes 96))
deriving DecidableEq

inductive Label where
  | accepted
  | attested
  | final
deriving DecidableEq

structure ValidationResult (V Q : Type) where
  sv : StepVotes
  vote : V
  quorum : Q

structure Ratification (CH V Q SI : Type) where
  header : CH
  vote : V
  timestamp : UInt64
  validationResult : ValidationResult V Q
  signInfo : SI

structure Header (H V : Type) where
  hashable : H
  cert : Certificate V
  hash : FixedBytes 32

structure Transaction (P : Type) where
  version : UInt32
  type : UInt32
  inner : P

structure Block (H V P : Type) where
  header : Header H V
  txs : List (Transaction P)

structure SpentTransaction (P E : Type) where
  inner : Transaction P
  blockHeight : UInt64
  gasSpent : UInt64
  economicMode : E
  err : Option String

def invalidData (msg : String) : IoError := ⟨.invalidData, some msg⟩

/-- `count` readings of `r`, in order, stopping at the first failure. -/
def readMany (r : Reader α) : Nat → Reader (List α)
  | 0 => pure []
  | n + 1 => do
    let x ← r
    let xs ← readMany r n
    pure (x :: xs)

/-- A fieldless enum read as `Self::read_u8(r)?.into()`, where the `From<u8>`
conversion may panic. -/
def readU8Enum (fromU8 : UInt8 → Except String α) : Reader α := do
  let v ← readU8
  match fromU8 v with
  | .ok x => pure x
  | .error msg => Reader.panic msg

def isContinuation (b : Nat) : Bool := 0x80 ≤ b && b < 0xC0

/-- `String::from_utf8` on the characters level: the well-formed UTF-8
sequences (no overlong forms, no surrogates, nothing above U+10FFFF). -/
def utf8Decode : Bytes → Option (List Char)
  | [] => some []
  | b0 :: rest =>
    let c0 := b0.toNat
    if c0 < 0x80 then (Char.ofNat c0 :: ·) <$> utf8Decode rest
    else match rest with
      | [] => none
      | b1 :: rest1 =>
        let c1 := b1.toNat
        if 0xC0 ≤ c0 ∧ c0 < 0xE0 then
          let v := (c0 - 0xC0) * 64 + (c1 - 0x80)
          if isContinuation c1 ∧ 0x80 ≤ v then (Char.ofNat v :: ·) <$> utf8Decode rest1
          else none
        else match rest1 with
          | [] => none
          | b2 :: rest2 =>
            let c2 := b2.toNat
            if 0xE0 ≤ c0 ∧ c0 < 0xF0 then
              let v := (c0 - 0xE0) * 4096 + (c1 - 0x80) * 64 + (c2 - 0x80)
              if isContinuation c1 ∧ isContinuation c2 ∧ 0x800 ≤ v ∧ (v < 0xD800 ∨ 0xDFFF < v) then
                (Char.ofNat v :: ·) <$> utf8Decode rest2
              else none
            else match rest2 with
              | [] => none
              | b3 :: rest3 =>
                let c3 := b3.toNat
                let v := (c0 - 0xF0) * 262144 + (c1 - 0x80) * 4096 + (c2 - 0x80) * 64 + (c3 - 0x80)
                if 0xF0 ≤ c0 ∧ c0 < 0xF8 ∧ isContinuation c1 ∧ isContinuation c2 ∧
                    isContinuation c3 ∧ 0x10000 ≤ v ∧ v < 0x110000 then
                  (Char.ofNat v :: ·) <$> utf8Decode rest3
                else none

/-- `e.as_bytes()`. -/
def utf8Bytes (e : String) : Bytes := e.data.flatMap String.utf8EncodeChar

variable (X : Externals)

def writeStepVotes (sv : StepVotes) : Bytes :=
  writeU64Le sv.bitset ++ sv.aggregateSignature.bytes

def readStepVotes : Reader StepVotes := do
  let bitset ← readU64Le
  let aggregateSignature ← readBytes 48
  pure ⟨bitset, aggregateSignature⟩

def writeRatificationResult : RatificationResult X.Vote → Bytes
  | .fail v => [0] ++ X.writeVote v
  | .success v => [1] ++ X.writeVote v

def readRatificationResult : Reader (RatificationResult X.Vote) := do
  let tag ← readU8
  if tag = 0 then
    let vote ← X.readVote
    pure (.fail vote)
  else if tag = 1 then
    let vote ← X.readVote
    pure (.success vote)
  else Reader.fail (invalidData "Invalid RatificationResult")

def writeCertificate (c : Certificate X.Vote) : Bytes :=
  writeRatificationResult X c.result ++ writeStepVotes c.validation ++
    writeStepVotes c.ratification

def readCertificate : Reader (Certificate X.Vote) := do
  let result ← readRatificationResult X
  let validation ← readStepVotes
  let ratification ← readStepVotes
  pure ⟨result, validation, ratification⟩

def writeIterationEntry : Option (Certificate X.Vote × FixedBytes 96) → Bytes
  | some (cert, pk) => [1] ++ writeCertificate X cert ++ pk.bytes
  | none => [0]

/-- The count is `cert_list.len() as u8`. -/
def writeIterationsInfo (info : IterationsInfo X.Vote) : Bytes :=
  writeU8 (UInt8.ofNat info.certList.length) ++ info.certList.flatMap (writeIterationEntry X)

def readIterationEntry : Reader (Option (Certificate X.Vote × FixedBytes 96)) := do
  let opt ← readU8
  if opt = 0 then pure none
  else if opt = 1 then
    let cert ← readCertificate X
    let pk ← readBytes 96
    pure (some (cert, pk))
  else Reader.fail (invalidData "Invalid option")

def readIterationsInfo : Reader (IterationsInfo X.Vote) := do
  let count ← readU8
  let certList ← readMany (readIterationEntry X) count.toNat
  pure ⟨certList⟩

/-- Modelled from the spec: the discriminants `0 = Accepted, 1 = Attested,
2 = Final` that `(*self) as u8` writes. -/
def Label.asU8 : Label → UInt8
  | .accepted => 0
  | .attested => 1
  | .final => 2

/-- `From<u8> for Label`. -/
def Label.fromU8 (value : UInt8) : Except String Label :=
  if value = 0 then .ok .accepted
  else if value = 1 then .ok .attested
  else if value = 2 then .ok .final
  else .error "Invalid u8 value for Label"

def writeLabel (label : Label) : Bytes := writeU8 label.asU8

def readLabel : Reader Label := readU8Enum Label.fromU8

def writeQuorumType (q : X.QuorumType) : Bytes := writeU8 (X.quorumTypeAsU8 q)

def readQuorumType : Reader X.QuorumType := readU8Enum X.quorumTypeFromU8

def writeValidationResult (v : ValidationResult X.Vote X.QuorumType) : Bytes :=
  writeStepVotes v.sv ++ X.writeVote v.vote ++ writeQuorumType X v.quorum

def readValidationResult : Reader (ValidationResult X.Vote X.QuorumType) := do
  let sv ← readStepVotes
  let vote ← X.readVote
  let quorum ← readQuorumType X
  pure ⟨sv, vote, quorum⟩

abbrev Externals.Ratification :=
  RuskProofs.Wire.Ratification X.ConsensusHeader X.Vote X.QuorumType X.SignInfo

def writeRatification (r : X.Ratification) : Bytes :=
  X.writeConsensusHeader r.header ++ X.writeVote r.vote ++ writeU64Le r.timestamp ++
    writeValidationResult X r.validationResult ++ X.writeSignInfo r.signInfo

def readRatification : Reader X.Ratification := do
  let header ← X.readConsensusHeader
  let vote ← X.readVote
  let timestamp ← readU64Le
  let validationResult ← readValidationResult X
  let signInfo ← X.readSignInfo
  pure ⟨header, vote, timestamp, validationResult, signInfo⟩

def writeHeader (h : Header X.Hashable X.Vote) : Bytes :=
  X.marshalHashable h.hashable ++ writeCertificate X h.cert ++ h.hash.bytes

def readHeader : Reader (Header X.Hashable X.Vote) := do
  let hashable ← X.unmarshalHashable
  let cert ← readCertificate X
  let hash ← readBytes 32
  pure ⟨hashable, cert, hash⟩

def writeTransaction (t : Transaction X.PhoenixTransaction) : Bytes :=
  writeU32Le t.version ++ writeU32Le t.type ++ writeVarLeBytes32 (X.toVarBytes t.inner)

def readTransaction : Reader (Transaction X.PhoenixTransaction) := do
  let version ← readU32Le
  let txType ← readU32Le
  let txPayload ← readVarLeBytes32
  match X.fromSlice txPayload with
  | some inner => pure ⟨version, txType, inner⟩
  | none => Reader.fail ⟨.invalidData, none⟩

abbrev Externals.Block := RuskProofs.Wire.Block X.Hashable X.Vote X.PhoenixTransaction

/-- Modelled from the spec: `Block::new` sets the header hash to the hash of
the header's hashable bytes. -/
def blockNew (header : Header X.Hashable X.Vote) (txs : List (Transaction X.PhoenixTransaction)) :
    X.Block :=
  ⟨{ header with hash := X.hash (X.marshalHashable header.hashable) }, txs⟩

/-- The transaction count is `txs().len() as u32`. -/
def writeBlock (b : X.Block) : Bytes :=
  writeHeader X b.header ++ writeU32Le (UInt32.ofNat b.txs.length) ++
    b.txs.flatMap (writeTransaction X)

def readBlock : Reader X.Block := do
  let header ← readHeader X
  let txLen ← readU32Le
  let txs ← readMany (readTransaction X) txLen.toNat
  pure (blockNew X header txs)

abbrev Externals.SpentTransaction :=
  RuskProofs.Wire.SpentTransaction X.PhoenixTransaction X.EconomicMode

def writeSpentTransaction (t : X.SpentTransaction) : Bytes :=
  writeTransaction X t.inner ++ writeU64Le t.blockHeight ++ writeU64Le t.gasSpent ++
    (X.ecoModeWrite t.economicMode).bytes ++
    match t.err with
    | some e => writeU32Le (UInt32.ofNat (utf8Bytes e).length) ++ utf8Bytes e
    | none => writeU64Le 0

def readSpentTransaction : Reader X.SpentTransaction := do
  let inner ← readTransaction X
  let blockHeight ← readU64Le
  let gasSpent ← readU64Le
  let buf ← readBytes X.ecoModeLen
  let economicMode := X.ecoModeRead buf
  let errorLen ← readU32Le
  let err ← if errorLen > 0 then do
      let buf ← readExact errorLen.toNat
      match utf8Decode buf with
      | some cs => pure (some (String.mk cs))
      | none => Reader.panic "Cannot from_utf8"
    else pure none
  pure ⟨inner, blockHeight, gasSpent, economicMode, err⟩

/-- The external codecs take back what they write. -/
structure Externals.RoundTrip : Prop where
  vote : ∀ v rest, X.readVote (X.writeVote v ++ rest) = .ok v rest
  consensusHeader : ∀ h rest,
    X.readConsensusHeader (X.writeConsensusHeader h ++ rest) = .ok h rest
  signInfo : ∀ s rest, X.readSignInfo (X.writeSignInfo s ++ rest) = .ok s rest
  hashable : ∀ h rest, X.unmarshalHashable (X.marshalHashable h ++ rest) = .ok h rest
  phoenix : ∀ p, X.fromSlice (X.toVarBytes p) = some p
  economicMode : ∀ e, X.ecoModeRead (X.ecoModeWrite e) = e

theorem readMany_flatMap {r : Reader α} {w : α → Bytes} (xs : List α)
    (hr : ∀ x ∈ xs, ∀ rest, r (w x ++ rest) = .ok x rest) (rest : Bytes) :
    readMany r xs.length (xs.flatMap w ++ rest) = .ok xs rest := by
  induction xs with
  | nil => rfl
  | cons x xs ih =>
      have hx := hr x (List.mem_cons_self x xs) (xs.flatMap w ++ rest)
      have hxs := ih fun y hy => hr y (List.mem_cons_of_mem x hy)
      simp only [List.length_cons, List.flatMap_cons, List.append_assoc, readMany,
        Reader.bind_ok hx, Reader.bind_ok hxs, Reader.pure_apply]

theorem readU8Enum_write {fromU8 : UInt8 → Except String α} {asU8 : α → UInt8} {x : α}
    (hx : fromU8 (asU8 x) = .ok x) (rest : Bytes) :
    readU8Enum fromU8 (writeU8 (asU8 x) ++ rest) = .ok x rest := by
  simp only [readU8Enum, Reader.bind_ok (readU8_writeU8 _ rest), hx, Reader.pure_apply]

/-- A fieldless enum round-trips exactly when its conversion takes every
discriminant back to its variant. -/
theorem readU8Enum_roundTrips_iff {fromU8 : UInt8 → Except String α} {asU8 : α → UInt8} :
    RoundTrips (fun x => writeU8 (asU8 x)) (readU8Enum fromU8) ↔
      ∀ x, fromU8 (asU8 x) = .ok x := by
  refine ⟨fun h x => ?_, fun h x rest => readU8Enum_write (h x) rest⟩
  have hx := h x []
  simp only [readU8Enum, Reader.bind_ok (readU8_writeU8 _ _)] at hx
  cases hc : fromU8 (asU8 x) <;> rw [hc] at hx <;> cases hx
  rfl

theorem readStepVotes_write (sv : StepVotes) (rest : Bytes) :
    readStepVotes (writeStepVotes sv ++ rest) = .ok sv rest := by
  simp only [writeStepVotes, readStepVotes, List.append_assoc,
    Reader.bind_ok (readU64Le_writeU64Le _ _), Reader.bind_ok (readBytes_append _ _),
    Reader.pure_apply]

theorem readLabel_write (l : Label) (rest : Bytes) :
    readLabel (writeLabel l ++ rest) = .ok l rest :=
  readU8Enum_write (by cases l <;> rfl) rest

theorem readQuorumType_write (hq : ∀ q, X.quorumTypeFromU8 (X.quorumTypeAsU8 q) = .ok q)
    (q : X.QuorumType) (rest : Bytes) :
    readQuorumType X (writeQuorumType X q ++ rest) = .ok q rest :=
  readU8Enum_write (hq q) rest

section
variable {X}
variable (hX : X.RoundTrip)
include hX

theorem readRatificationResult_write (r : RatificationResult X.Vote) (rest : Bytes) :
    readRatificationResult X (writeRatificationResult X r ++ rest) = .ok r rest := by
  cases r <;>
  · simp only [writeRatificationResult, readRatificationResult, List.singleton_append,
      List.cons_append, Reader.bind_ok (readU8_cons _ _)]
    simp [Reader.bind_ok (hX.vote _ rest)]

theorem readCertificate_write (c : Certificate X.Vote) (rest : Bytes) :
    readCertificate X (writeCertificate X c ++ rest) = .ok c rest := by
  simp only [writeCertificate, readCertificate, List.append_assoc,
    Reader.bind_ok (readRatificationResult_write hX _ _),
    Reader.bind_ok (readStepVotes_write _ _), Reader.pure_apply]

theorem readIterationEntry_write (e : Option (Certificate X.Vote × FixedBytes 96))
    (rest : Bytes) : readIterationEntry X (writeIterationEntry X e ++ rest) = .ok e rest := by
  rcases e with _ | ⟨cert, pk⟩
  · simp [writeIterationEntry, readIterationEntry, Reader.bind_ok (readU8_cons _ _)]
  · simp only [writeIterationEntry, readIterationEntry, List.singleton_append, List.cons_append,
      List.append_assoc, Reader.bind_ok (readU8_cons _ _)]
    simp [Reader.bind_ok (readCertificate_write hX _ _), Reader.bind_ok (readBytes_append _ _)]

theorem readIterationsInfo_write (info : IterationsInfo X.Vote)
    (hlen : info.certList.length < 256) (rest : Bytes) :
    readIterationsInfo X (writeIterationsInfo X info ++ rest) = .ok info rest := by
  have hcount : (UInt8.ofNat info.certList.length).toNat = info.certList.length := by
    rw [uint8_toNat_ofNat, Nat.mod_eq_of_lt hlen]
  have hmany := readMany_flatMap info.certList
    (fun e _ rest => readIterationEntry_write hX e rest) rest
  rw [← hcount] at hmany
  simp only [writeIterationsInfo, readIterationsInfo, List.append_assoc,
    Reader.bind_ok (readU8_writeU8 _ _), Reader.bind_ok hmany, Reader.pure_apply]

theorem readValidationResult_write (hq : ∀ q, X.quorumTypeFromU8 (X.quorumTypeAsU8 q) = .ok q)
    (v : ValidationResult X.Vote X.QuorumType) (rest : Bytes) :
    readValidationResult X (writeValidationResult X v ++ rest) = .ok v rest := by
  simp only [writeValidationResult, readValidationResult, List.append_assoc,
    Reader.bind_ok (readStepVotes_write _ _), Reader.bind_ok (hX.vote _ _),
    Reader.bind_ok (readQuorumType_write X hq _ _), Reader.pure_apply]

theorem readRatification_write (hq : ∀ q, X.quorumTypeFromU8 (X.quorumTypeAsU8 q) = .ok q)
    (r : X.Ratification) (rest : Bytes) :
    readRatification X (writeRatification X r ++ rest) = .ok r rest := by
  simp only [writeRatification, readRatification, List.append_assoc,
    Reader.bind_ok (hX.consensusHeader _ _), Reader.bind_ok (hX.vote _ _),
    Reader.bind_ok (readU64Le_writeU64Le _ _), Reader.bind_ok (readValidationResult_write hX hq _ _),
    Reader.bind_ok (hX.signInfo _ _), Reader.pure_apply]

theorem readHeader_write (h : Header X.Hashable X.Vote) (rest : Bytes) :
    readHeader X (writeHeader X h ++ rest) = .ok h rest := by
  simp only [writeHeader, readHeader, List.append_assoc, Reader.bind_ok (hX.hashable _ _),
    Reader.bind_ok (readCertificate_write hX _ _), Reader.bind_ok (readBytes_append _ _),
    Reader.pure_apply]

theorem readTransaction_write (t : Transaction X.PhoenixTransaction)
    (hlen : (X.toVarBytes t.inner).length < 2 ^ 32) (rest : Bytes) :
    readTransaction X (writeTransaction X t ++ rest) = .ok t rest := by
  simp only [writeTransaction, readTransaction, List.append_assoc,
    Reader.bind_ok (readU32Le_writeU32Le _ _),
    Reader.bind_ok (readVarLeBytes32_writeVarLeBytes32 _ rest hlen), hX.phoenix,
    Reader.pure_apply]

/-- The decoder rebuilds a block with `Block::new`, whatever hash the input
carried. -/
theorem readBlock_writeBlock (b : X.Block) (hcount : b.txs.length < 2 ^ 32)
    (hlen : ∀ t ∈ b.txs, (X.toVarBytes t.inner).length < 2 ^ 32) (rest : Bytes) :
    readBlock X (writeBlock X b ++ rest) = .ok (blockNew X b.header b.txs) rest := by
  have hmany := readMany_flatMap b.txs
    (fun t ht rest => readTransaction_write hX t (hlen t ht) rest) rest
  rw [← UInt32.toNat_ofNat_of_lt hcount] at hmany
  simp only [writeBlock, readBlock, List.append_assoc, Reader.bind_ok (readHeader_write hX _ _),
    Reader.bind_ok (readU32Le_writeU32Le _ _), Reader.bind_ok hmany, Reader.pure_apply]

theorem readBlock_write (header : Header X.Hashable X.Vote)
    (txs : List (Transaction X.PhoenixTransaction)) (hcount : txs.length < 2 ^ 32)
    (hlen : ∀ t ∈ txs, (X.toVarBytes t.inner).length < 2 ^ 32) (rest : Bytes) :
    readBlock X (writeBlock X (blockNew X header txs) ++ rest) =
      .ok (blockNew X header txs) rest :=
  readBlock_writeBlock hX (blockNew X header txs) hcount hlen rest

end

/-- Decoding inverts encoding, whatever follows, for every type of
`encoding.rs` but the spent transaction: blocks as `Block::new` builds them,
with their transaction count and every transaction's payload length fitting
the `u32` prefixes, and iterations infos of at most 255 entries. `QuorumType`
round-trips exactly when its conversion takes each discriminant back to its
variant, and `ValidationResult` and `Ratification` round-trip when it does. -/
def RoundTripLaws : Prop :=
  (∀ header txs, txs.length < 2 ^ 32 → (∀ t ∈ txs, (X.toVarBytes t.inner).length < 2 ^ 32) →
    ∀ rest, readBlock X (writeBlock X (blockNew X header txs) ++ rest) =
      .ok (blockNew X header txs) rest) ∧
  RoundTrips (writeHeader X) (readHeader X) ∧
  (∀ t, (X.toVarBytes t.inner).length < 2 ^ 32 → ∀ rest,
    readTransaction X (writeTransaction X t ++ rest) = .ok t rest) ∧
  RoundTrips (writeCertificate X) (readCertificate X) ∧
  RoundTrips writeStepVotes readStepVotes ∧
  RoundTrips (writeRatificationResult X) (readRatificationResult X) ∧
  (∀ info, info.certList.length < 256 → ∀ rest,
    readIterationsInfo X (writeIterationsInfo X info ++ rest) = .ok info rest) ∧
  RoundTrips writeLabel readLabel ∧
  (RoundTrips (writeQuorumType X) (readQuorumType X) ↔
    ∀ q, X.quorumTypeFromU8 (X.quorumTypeAsU8 q) = .ok q) ∧
  ((∀ q, X.quorumTypeFromU8 (X.quorumTypeAsU8 q) = .ok q) →
    RoundTrips (writeRatification X) (readRatification X) ∧
      RoundTrips (writeValidationResult X) (readValidationResult X))

theorem read_write_roundtrip {X : Externals} (hX : X.RoundTrip) : RoundTripLaws X :=
  ⟨fun header txs hcount hlen rest => readBlock_write hX header txs hcount hlen rest,
    readHeader_write hX, fun t hlen rest => readTransaction_write hX t hlen rest,
    readCertificate_write hX, readStepVotes_write, readRatificationResult_write hX,
    fun info hlen rest => readIterationsInfo_write hX info hlen rest, readLabel_write,
    readU8Enum_roundTrips_iff,
    fun hq => ⟨readRatification_write hX hq, readValidationResult_write hX hq⟩⟩

/-- Externals with empty encodings, a constant hash, and the Phoenix
transaction carried as its own bytes. -/
def bareExternals : Externals where
  Vote := Unit
  writeVote _ := []
  readVote := pure ()
  QuorumType := Unit
  quorumTypeAsU8 _ := 0
  quorumTypeFromU8 b := if b = 0 then .ok () else .error "Invalid u8 value for QuorumType"
  ConsensusHeader := Unit
  writeConsensusHeader _ := []
  readConsensusHeader := pure ()
  SignInfo := Unit
  writeSignInfo _ := []
  readSignInfo := pure ()
  Hashable := Unit
  marshalHashable _ := []
  unmarshalHashable := pure ()
  hash _ := ⟨List.replicate 32 0, rfl⟩
  PhoenixTransaction := Bytes
  toVarBytes := id
  fromSlice := some
  EconomicMode := Unit
  ecoModeLen := 0
  ecoModeWrite _ := ⟨[], rfl⟩
  ecoModeRead _ := ()

theorem bareExternals_roundTrip : bareExternals.RoundTrip :=
  ⟨fun _ _ => rfl, fun _ _ => rfl, fun _ _ => rfl, fun _ _ => rfl, fun _ => rfl, fun _ => rfl⟩

theorem roundTripLaws_bare : RoundTripLaws bareExternals :=
  read_write_roundtrip bareExternals_roundTrip

/-- Externals whose Phoenix transactions are non-empty payloads, which
`from_slice` takes as they are and rejects when empty, and whose economic mode
is kept as the nine bytes of its buffer. -/
def payloadExternals : Externals :=
  { bareExternals with
    PhoenixTransaction := { bs : Bytes // bs ≠ [] }
    toVarBytes := fun p => p.val
    fromSlice := fun bs => if h : bs = [] then none else some ⟨bs, h⟩
    EconomicMode := FixedBytes 9
    ecoModeLen := 9
    ecoModeWrite := id
    ecoModeRead := id }

theorem payloadExternals_roundTrip : payloadExternals.RoundTrip :=
  ⟨fun _ _ => rfl, fun _ _ => rfl, fun _ _ => rfl, fun _ _ => rfl,
    fun p => dif_neg p.property, fun _ => rfl⟩

/-- A transaction of version 1 and type 1 with a one-byte Phoenix payload. -/
def payloadTransaction : Transaction payloadExternals.PhoenixTransaction :=
  ⟨1, 1, ⟨[1], List.cons_ne_nil _ _⟩⟩

/-- A payload of `2 ^ 32` bytes: its length prefix wraps to `0`, so the
decoder reads an empty payload and leaves the payload's bytes unread. -/
theorem readTransaction_wraps_long_payload :
    readTransaction bareExternals
        (writeTransaction bareExternals ⟨0, 0, List.replicate (2 ^ 32) 0⟩ ++ []) ≠
      .ok ⟨0, 0, List.replicate (2 ^ 32) 0⟩ [] := by
  have hwrapped : leBytes 4 (List.replicate (2 ^ 32) (0 : UInt8)).length = writeU32Le 0 := by
    rw [List.length_replicate]; decide
  have hvar : readVarLeBytes32 (writeU32Le 0 ++
      bareExternals.toVarBytes (List.replicate (2 ^ 32) 0)) =
      .ok [] (List.replicate (2 ^ 32) 0) := by
    rw [readVarLeBytes32, Reader.bind_ok (readU32Le_writeU32Le _ _)]
    exact readExact_append [] _
  have hread : readTransaction bareExternals
      (writeTransaction bareExternals ⟨0, 0, List.replicate (2 ^ 32) 0⟩ ++ []) =
      .ok ⟨0, 0, []⟩ (List.replicate (2 ^ 32) 0) := by
    rw [List.append_nil, writeTransaction, writeVarLeBytes32]
    erw [hwrapped]
    rw [List.append_assoc, readTransaction, Reader.bind_ok (readU32Le_writeU32Le _ _),
      Reader.bind_ok (readU32Le_writeU32Le _ _), Reader.bind_ok hvar]
    rfl
  rw [hread]
  intro h
  injection h with _ hrest
  have hlen := congrArg List.length hrest
  rw [List.length_replicate, List.length_nil] at hlen
  exact (Nat.two_pow_pos 32).ne' hlen

/-- The external decoders accept only what their encoders write. -/
structure Externals.Strict : Prop where
  vote : Canonical X.writeVote X.readVote
  consensusHeader : Canonical X.writeConsensusHeader X.readConsensusHeader
  signInfo : Canonical X.writeSignInfo X.readSignInfo
  hashable : Canonical X.marshalHashable X.unmarshalHashable
  phoenix : ∀ bs p, X.fromSlice bs = some p → X.toVarBytes p = bs

theorem readMany_canonical {r : Reader α} {w : α → Bytes} (hr : Canonical w r) :
    ∀ n b xs rest, readMany r n b = .ok xs rest → xs.length = n ∧ b = xs.flatMap w ++ rest := by
  intro n
  induction n with
  | zero => intro b xs rest h; cases h; exact ⟨rfl, rfl⟩
  | succ n ih =>
      intro b xs rest h
      obtain ⟨x, mid, hx, h⟩ := Reader.bind_eq_ok h
      obtain ⟨ys, mid', hys, h⟩ := Reader.bind_eq_ok h
      cases h
      obtain ⟨hlen, rfl⟩ := ih mid ys rest hys
      rw [hr b x _ hx]
      exact ⟨by simp [hlen], by simp⟩

theorem readU8Enum_canonical {fromU8 : UInt8 → Except String α} {asU8 : α → UInt8}
    (h : ∀ b x, fromU8 b = .ok x → asU8 x = b) :
    Canonical (fun x => writeU8 (asU8 x)) (readU8Enum fromU8) := by
  intro b x rest hr
  obtain ⟨v, mid, hv, hr⟩ := Reader.bind_eq_ok hr
  cases hf : fromU8 v with
  | ok y => rw [hf] at hr; cases hr; rw [readU8_canonical b v _ hv]; simp only [h v _ hf]
  | error msg => rw [hf] at hr; cases hr

/-- A fieldless enum is read canonically exactly when its conversion accepts
only discriminants. -/
theorem readU8Enum_canonical_iff {fromU8 : UInt8 → Except String α} {asU8 : α → UInt8} :
    Canonical (fun x => writeU8 (asU8 x)) (readU8Enum fromU8) ↔
      ∀ b x, fromU8 b = .ok x → asU8 x = b := by
  refine ⟨fun h b x hx => ?_, readU8Enum_canonical⟩
  have hb : [b] = writeU8 (asU8 x) ++ [] := h [b] x [] (by
    simp only [readU8Enum, Reader.bind_ok (readU8_cons _ _), hx, Reader.pure_apply])
  rw [List.append_nil, writeU8_eq, List.singleton_inj] at hb
  exact hb.symm

theorem readStepVotes_canonical : Canonical writeStepVotes readStepVotes := by
  intro b sv rest h
  obtain ⟨bitset, mid, h1, h⟩ := Reader.bind_eq_ok h
  obtain ⟨sig, mid', h2, h⟩ := Reader.bind_eq_ok h
  cases h
  rw [readU64Le_canonical _ _ _ h1, readBytes_canonical _ _ _ _ h2, writeStepVotes,
    List.append_assoc]

theorem Label.asU8_of_fromU8 (b : UInt8) (l : Label) (h : Label.fromU8 b = .ok l) :
    l.asU8 = b := by
  unfold Label.fromU8 at h
  split_ifs at h with h0 h1 h2 <;> cases h <;> simp [Label.asU8, *]

theorem readLabel_canonical : Canonical writeLabel readLabel :=
  readU8Enum_canonical Label.asU8_of_fromU8

section
variable {X}
variable (hX : X.Strict)
include hX

theorem readRatificationResult_canonical :
    Canonical (writeRatificationResult X) (readRatificationResult X) := by
  intro b r rest h
  obtain ⟨tag, mid, htag, h⟩ := Reader.bind_eq_ok h
  rw [readU8_canonical b tag mid htag, writeU8_eq]
  split at h
  · obtain ⟨v, mid', hv, h⟩ := Reader.bind_eq_ok h
    cases h
    rw [hX.vote _ _ _ hv]
    simp [writeRatificationResult, *]
  · split at h
    · obtain ⟨v, mid', hv, h⟩ := Reader.bind_eq_ok h
      cases h
      rw [hX.vote _ _ _ hv]
      simp [writeRatificationResult, *]
    · cases h

theorem readCertificate_canonical : Canonical (writeCertificate X) (readCertificate X) := by
  intro b c rest h
  obtain ⟨r, mid, hr, h⟩ := Reader.bind_eq_ok h
  obtain ⟨v, mid', hv, h⟩ := Reader.bind_eq_ok h
  obtain ⟨w, mid'', hw, h⟩ := Reader.bind_eq_ok h
  cases h
  rw [readRatificationResult_canonical hX _ _ _ hr, readStepVotes_canonical _ _ _ hv,
    readStepVotes_canonical _ _ _ hw]
  simp [writeCertificate]

theorem readIterationEntry_canonical :
    Canonical (writeIterationEntry X) (readIterationEntry X) := by
  intro b e rest h
  obtain ⟨opt, mid, hopt, h⟩ := Reader.bind_eq_ok h
  rw [readU8_canonical b opt mid hopt, writeU8_eq]
  split at h
  · cases h; simp [writeIterationEntry, *]
  · split at h
    · obtain ⟨c, mid', hc, h⟩ := Reader.bind_eq_ok h
      obtain ⟨pk, mid'', hpk, h⟩ := Reader.bind_eq_ok h
      cases h
      rw [readCertificate_canonical hX _ _ _ hc, readBytes_canonical _ _ _ _ hpk]
      simp [writeIterationEntry, *]
    · cases h

theorem readIterationsInfo_canonical :
    Canonical (writeIterationsInfo X) (readIterationsInfo X) := by
  intro b info rest h
  obtain ⟨count, mid, hcount, h⟩ := Reader.bind_eq_ok h
  obtain ⟨certList, mid', hlist, h⟩ := Reader.bind_eq_ok h
  cases h
  obtain ⟨hlen, rfl⟩ := readMany_canonical (readIterationEntry_canonical hX) _ _ _ _ hlist
  rw [readU8_canonical _ _ _ hcount, writeIterationsInfo, hlen, uint8_ofNat_toNat,
    List.append_assoc]

theorem readValidationResult_canonical
    (hq : ∀ b q, X.quorumTypeFromU8 b = .ok q → X.quorumTypeAsU8 q = b) :
    Canonical (writeValidationResult X) (readValidationResult X) := by
  intro b v rest h
  obtain ⟨sv, mid, hsv, h⟩ := Reader.bind_eq_ok h
  obtain ⟨vote, mid', hvote, h⟩ := Reader.bind_eq_ok h
  obtain ⟨q, mid'', hqt, h⟩ := Reader.bind_eq_ok h
  cases h
  rw [readStepVotes_canonical _ _ _ hsv, hX.vote _ _ _ hvote,
    readU8Enum_canonical hq _ _ _ hqt]
  simp [writeValidationResult, writeQuorumType]

theorem readRatification_canonical
    (hq : ∀ b q, X.quorumTypeFromU8 b = .ok q → X.quorumTypeAsU8 q = b) :
    Canonical (writeRatification X) (readRatification X) := by
  intro b r rest h
  obtain ⟨hdr, m1, h1, h⟩ := Reader.bind_eq_ok h
  obtain ⟨vote, m2, h2, h⟩ := Reader.bind_eq_ok h
  obtain ⟨ts, m3, h3, h⟩ := Reader.bind_eq_ok h
  obtain ⟨vr, m4, h4, h⟩ := Reader.bind_eq_ok h
  obtain ⟨si, m5, h5, h⟩ := Reader.bind_eq_ok h
  cases h
  rw [hX.consensusHeader _ _ _ h1, hX.vote _ _ _ h2, readU64Le_canonical _ _ _ h3,
    readValidationResult_canonical hX hq _ _ _ h4, hX.signInfo _ _ _ h5]
  simp [writeRatification]

theorem readHeader_canonical : Canonical (writeHeader X) (readHeader X) := by
  intro b hd rest h
  obtain ⟨hashable, m1, h1, h⟩ := Reader.bind_eq_ok h
  obtain ⟨cert, m2, h2, h⟩ := Reader.bind_eq_ok h
  obtain ⟨hash, m3, h3, h⟩ := Reader.bind_eq_ok h
  cases h
  rw [hX.hashable _ _ _ h1, readCertificate_canonical hX _ _ _ h2,
    readBytes_canonical _ _ _ _ h3]
  simp [writeHeader]

theorem readTransaction_canonical : Canonical (writeTransaction X) (readTransaction X) := by
  intro b t rest h
  obtain ⟨version, m1, h1, h⟩ := Reader.bind_eq_ok h
  obtain ⟨txType, m2, h2, h⟩ := Reader.bind_eq_ok h
  obtain ⟨payload, m3, h3, h⟩ := Reader.bind_eq_ok h
  cases hinner : X.fromSlice payload with
  | some inner =>
      rw [hinner] at h
      cases h
      rw [readU32Le_canonical _ _ _ h1, readU32Le_canonical _ _ _ h2,
        readVarLeBytes32_canonical _ _ _ h3]
      simp [writeTransaction, hX.phoenix _ _ hinner]
  | none => rw [hinner] at h; cases h

/-- A decoded block is one `Block::new` built, and its input is the encoding
of that block with the header hash the input carried. -/
theorem readBlock_canonical_up_to_hash {b : Bytes} {x : X.Block} {rest : Bytes}
    (h : readBlock X b = .ok x rest) :
    x.header.hash = X.hash (X.marshalHashable x.header.hashable) ∧
      ∃ hash, b = writeBlock X ⟨{ x.header with hash := hash }, x.txs⟩ ++ rest := by
  obtain ⟨header, m1, h1, h⟩ := Reader.bind_eq_ok h
  obtain ⟨txLen, m2, h2, h⟩ := Reader.bind_eq_ok h
  obtain ⟨txs, m3, h3, h⟩ := Reader.bind_eq_ok h
  cases h
  obtain ⟨hlen, rfl⟩ := readMany_canonical (readTransaction_canonical hX) _ _ _ _ h3
  refine ⟨rfl, header.hash, ?_⟩
  rw [readHeader_canonical hX _ _ _ h1, readU32Le_canonical _ _ _ h2]
  have hcount : UInt32.ofNat txs.length = txLen := by
    rw [hlen]; exact UInt32.eq_of_toBitVec_eq (by simp [UInt32.toNat, UInt32.ofNat])
  simp [writeBlock, blockNew, hcount]

end

/-- Every accepted encoding is the one the writer produces, for every type of
`encoding.rs` but the spent transaction; for a block, up to the header hash,
which the decoder recomputes with `Block::new` instead of keeping the one it
read. `QuorumType` is read canonically exactly when its conversion accepts
only discriminants, and `ValidationResult` and `Ratification` are when it
does. -/
def CanonicalLaws : Prop :=
  (∀ b x rest, readBlock X b = .ok x rest →
    x.header.hash = X.hash (X.marshalHashable x.header.hashable) ∧
      ∃ hash, b = writeBlock X ⟨{ x.header with hash := hash }, x.txs⟩ ++ rest) ∧
  Canonical (writeHeader X) (readHeader X) ∧
  Canonical (writeTransaction X) (readTransaction X) ∧
  Canonical (writeCertificate X) (readCertificate X) ∧
  Canonical writeStepVotes readStepVotes ∧
  Canonical (writeRatificationResult X) (readRatificationResult X) ∧
  Canonical (writeIterationsInfo X) (readIterationsInfo X) ∧
  Canonical writeLabel readLabel ∧
  (Canonical (writeQuorumType X) (readQuorumType X) ↔
    ∀ b q, X.quorumTypeFromU8 b = .ok q → X.quorumTypeAsU8 q = b) ∧
  ((∀ b q, X.quorumTypeFromU8 b = .ok q → X.quorumTypeAsU8 q = b) →
    Canonical (writeRatification X) (readRatification X) ∧
      Canonical (writeValidationResult X) (readValidationResult X))

theorem read_canonical {X : Externals} (hX : X.Strict) : CanonicalLaws X :=
  ⟨fun _ _ _ h => readBlock_canonical_up_to_hash hX h, readHeader_canonical hX,
    readTransaction_canonical hX, readCertificate_canonical hX, readStepVotes_canonical,
    readRatificationResult_canonical hX, readIterationsInfo_canonical hX, readLabel_canonical,
    readU8Enum_canonical_iff,
    fun hq => ⟨readRatification_canonical hX hq, readValidationResult_canonical hX hq⟩⟩

theorem bareExternals_strict : bareExternals.Strict where
  vote _ _ _ h := by cases h; rfl
  consensusHeader _ _ _ h := by cases h; rfl
  signInfo _ _ _ h := by cases h; rfl
  hashable _ _ _ h := by cases h; rfl
  phoenix _ _ h := by cases h; rfl

theorem canonicalLaws_bare : CanonicalLaws bareExternals :=
  read_canonical bareExternals_strict

/-- A block whose header carries a hash other than the hash of its hashable
part: the decoder accepts its encoding and returns the block with the
recomputed hash, whose encoding differs. -/
theorem readBlock_rehashes_header :
    ∃ b x, readBlock bareExternals b = .ok x [] ∧ writeBlock bareExternals x ≠ b := by
  let sv : StepVotes := ⟨0, ⟨List.replicate 48 0, rfl⟩⟩
  let blk : bareExternals.Block := ⟨⟨(), ⟨.fail (), sv, sv⟩, ⟨List.replicate 32 1, rfl⟩⟩, []⟩
  refine ⟨writeBlock bareExternals blk, blockNew bareExternals blk.header blk.txs, ?_, ?_⟩
  · simpa using readBlock_writeBlock bareExternals_roundTrip blk (by decide)
      (fun _ h => nomatch h) []
  · decide

/-- The external decoders never panic. -/
structure Externals.PanicFree : Prop where
  vote : NeverPanics X.readVote
  consensusHeader : NeverPanics X.readConsensusHeader
  signInfo : NeverPanics X.readSignInfo
  hashable : NeverPanics X.unmarshalHashable

theorem payloadExternals_panicFree : payloadExternals.PanicFree :=
  ⟨fun _ _ h => (nomatch h), fun _ _ h => (nomatch h), fun _ _ h => (nomatch h),
    fun _ _ h => (nomatch h)⟩

theorem readMany_ne_panic {r : Reader α} (hr : NeverPanics r) :
    ∀ n, NeverPanics (readMany r n)
  | 0 => NeverPanics.pure _
  | n + 1 => hr.bind fun _ => (readMany_ne_panic hr n).bind fun _ => NeverPanics.pure _

theorem readU8Enum_ne_panic {fromU8 : UInt8 → Except String α}
    (h : ∀ b m, fromU8 b ≠ .error m) : NeverPanics (readU8Enum fromU8) :=
  readU8_ne_panic.bind fun v => by
    cases hv : fromU8 v with
    | ok x => exact NeverPanics.pure x
    | error m => exact absurd hv (h v m)

/-- A fieldless enum's decoder never panics exactly when its conversion is
total. -/
theorem readU8Enum_ne_panic_iff {fromU8 : UInt8 → Except String α} :
    NeverPanics (readU8Enum fromU8) ↔ ∀ b m, fromU8 b ≠ .error m := by
  refine ⟨fun h b m hb => h [b] m ?_, readU8Enum_ne_panic⟩
  simp only [readU8Enum, Reader.bind_ok (readU8_cons _ _), hb, Reader.panic_apply]

theorem readStepVotes_ne_panic : NeverPanics readStepVotes :=
  readU64Le_ne_panic.bind fun _ => (readBytes_ne_panic 48).bind fun _ => NeverPanics.pure _

theorem readTransaction_ne_panic : NeverPanics (readTransaction X) :=
  readU32Le_ne_panic.bind fun _ => readU32Le_ne_panic.bind fun _ =>
    readVarLeBytes32_ne_panic.bind fun payload => by
      cases X.fromSlice payload with
      | some inner => exact NeverPanics.pure _
      | none => exact NeverPanics.fail _

/-- A `Label` byte outside `0, 1, 2` reaches the `panic!` of `From<u8>`. -/
theorem readLabel_panics (b : UInt8) (hb : 3 ≤ b.toNat) (rest : Bytes) :
    readLabel (b :: rest) = .panic "Invalid u8 value for Label" := by
  have h0 : b ≠ 0 := fun h => absurd hb (by subst h; decide)
  have h1 : b ≠ 1 := fun h => absurd hb (by subst h; decide)
  have h2 : b ≠ 2 := fun h => absurd hb (by subst h; decide)
  simp only [readLabel, readU8Enum, Reader.bind_ok (readU8_cons _ _), Label.fromU8,
    if_neg h0, if_neg h1, if_neg h2, Reader.panic_apply]

section
variable {X}
variable (hX : X.PanicFree)
include hX

theorem readRatificationResult_ne_panic : NeverPanics (readRatificationResult X) :=
  readU8_ne_panic.bind fun tag => by
    split_ifs
    · exact hX.vote.bind fun _ => NeverPanics.pure _
    · exact hX.vote.bind fun _ => NeverPanics.pure _
    · exact NeverPanics.fail _

theorem readCertificate_ne_panic : NeverPanics (readCertificate X) :=
  (readRatificationResult_ne_panic hX).bind fun _ => readStepVotes_ne_panic.bind fun _ =>
    readStepVotes_ne_panic.bind fun _ => NeverPanics.pure _

theorem readIterationEntry_ne_panic : NeverPanics (readIterationEntry X) :=
  readU8_ne_panic.bind fun opt => by
    split_ifs
    · exact NeverPanics.pure _
    · exact (readCertificate_ne_panic hX).bind fun _ => (readBytes_ne_panic 96).bind
        fun _ => NeverPanics.pure _
    · exact NeverPanics.fail _

theorem readIterationsInfo_ne_panic : NeverPanics (readIterationsInfo X) :=
  readU8_ne_panic.bind fun _ =>
    (readMany_ne_panic (readIterationEntry_ne_panic hX) _).bind fun _ => NeverPanics.pure _

theorem readValidationResult_ne_panic (hq : ∀ b m, X.quorumTypeFromU8 b ≠ .error m) :
    NeverPanics (readValidationResult X) :=
  readStepVotes_ne_panic.bind fun _ => hX.vote.bind fun _ =>
    (readU8Enum_ne_panic hq).bind fun _ => NeverPanics.pure _

theorem readRatification_ne_panic (hq : ∀ b m, X.quorumTypeFromU8 b ≠ .error m) :
    NeverPanics (readRatification X) :=
  hX.consensusHeader.bind fun _ => hX.vote.bind fun _ => readU64Le_ne_panic.bind fun _ =>
    (readValidationResult_ne_panic hX hq).bind fun _ => hX.signInfo.bind fun _ =>
      NeverPanics.pure _

theorem readHeader_ne_panic : NeverPanics (readHeader X) :=
  hX.hashable.bind fun _ => (readCertificate_ne_panic hX).bind fun _ =>
    (readBytes_ne_panic 32).bind fun _ => NeverPanics.pure _

theorem readBlock_ne_panic : NeverPanics (readBlock X) :=
  (readHeader_ne_panic hX).bind fun _ => readU32Le_ne_panic.bind fun _ =>
    (readMany_ne_panic (readTransaction_ne_panic X) _).bind fun _ => NeverPanics.pure _

end

/-- No decoder of `encoding.rs` but those of `Label` and `SpentTransaction`
panics, on any input. `QuorumType`'s decoder never panics exactly when its
conversion is total, and `ValidationResult`'s and `Ratification`'s never
panic when it is. -/
def PanicFreeLaws : Prop :=
  NeverPanics (readBlock X) ∧ NeverPanics (readHeader X) ∧ NeverPanics (readTransaction X) ∧
  NeverPanics (readCertificate X) ∧ NeverPanics readStepVotes ∧
  NeverPanics (readRatificationResult X) ∧ NeverPanics (readIterationsInfo X) ∧
  (NeverPanics (readQuorumType X) ↔ ∀ b m, X.quorumTypeFromU8 b ≠ .error m) ∧
  ((∀ b m, X.quorumTypeFromU8 b ≠ .error m) →
    NeverPanics (readRatification X) ∧ NeverPanics (readValidationResult X))

/-- Given external decoders that never panic, the decoders of `encoding.rs`
answer `Ok` or `Err` on every input, but for `Label`, `SpentTransaction` and
what the `QuorumType` conversion does. -/
theorem decoders_never_panic {X : Externals} (hX : X.PanicFree) : PanicFreeLaws X :=
  ⟨readBlock_ne_panic hX, readHeader_ne_panic hX, readTransaction_ne_panic X,
    readCertificate_ne_panic hX, readStepVotes_ne_panic, readRatificationResult_ne_panic hX,
    readIterationsInfo_ne_panic hX, readU8Enum_ne_panic_iff,
    fun hq => ⟨readRatification_ne_panic hX hq, readValidationResult_ne_panic hX hq⟩⟩

theorem panicFreeLaws_payload : PanicFreeLaws payloadExternals :=
  decoders_never_panic payloadExternals_panicFree

/-- An error string of a spent transaction that is not UTF-8 reaches the
`expect("Cannot from_utf8")` of the decoder. -/
theorem readSpentTransaction_panics {X : Externals} (hX : X.RoundTrip)
    (inner : Transaction X.PhoenixTransaction) (hinner : (X.toVarBytes inner.inner).length < 2 ^ 32)
    (blockHeight gasSpent : UInt64) (eco : X.EconomicMode) (bad : Bytes)
    (hbad : utf8Decode bad = none) (hlen : 0 < bad.length ∧ bad.length < 2 ^ 32) (rest : Bytes) :
    readSpentTransaction X (writeTransaction X inner ++ writeU64Le blockHeight ++
      writeU64Le gasSpent ++ (X.ecoModeWrite eco).bytes ++
      writeU32Le (UInt32.ofNat bad.length) ++ bad ++ rest) = .panic "Cannot from_utf8" := by
  have hcount : (UInt32.ofNat bad.length).toNat = bad.length := UInt32.toNat_ofNat_of_lt hlen.2
  have hpos : UInt32.ofNat bad.length > 0 := by
    show 0 < (UInt32.ofNat bad.length).toNat
    rw [hcount]
    exact hlen.1
  simp only [readSpentTransaction, List.append_assoc,
    Reader.bind_ok (readTransaction_write hX _ hinner _),
    Reader.bind_ok (readU64Le_writeU64Le _ _), Reader.bind_ok (readBytes_append _ _),
    Reader.bind_ok (readU32Le_writeU32Le _ _), if_pos hpos, hcount,
    Reader.bind_ok (readExact_append _ _), hbad]
  rfl

/-- A `Label` byte `3`, and a spent transaction of a one-byte Phoenix payload
whose error string is the single byte `0xFF`: both decoders panic instead of
returning an error. -/
theorem decoders_panic_on_malformed_input :
    readLabel [3] = .panic "Invalid u8 value for Label" ∧
      readSpentTransaction payloadExternals (writeTransaction payloadExternals payloadTransaction ++
        writeU64Le 7 ++ writeU64Le 21000 ++ List.replicate 9 0 ++ writeU32Le 1 ++ [0xFF]) =
        .panic "Cannot from_utf8" :=
  ⟨readLabel_panics 3 (by decide) [],
    readSpentTransaction_panics payloadExternals_roundTrip payloadTransaction (by decide) 7 21000
      ⟨List.replicate 9 0, rfl⟩ [0xFF] rfl ⟨by decide, by decide⟩ []⟩

end RuskProofs.Wire
