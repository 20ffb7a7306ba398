import Mathlib.Data.List.Basic
import RuskProofs.Wire.Encoding

/-!
The spent transaction codec of `encoding.rs`. The writer puts the error string
after a `u32` length, or a `u64` zero when there is none; the reader takes a
`u32` length in both cases and decodes what follows with `String::from_utf8`.
An error string comes back as itself, but an empty one comes back as no error,
and no error leaves four of the eight zero bytes unread. Conversely the reader
accepts only encodings, `String::from_utf8` taking no byte string but the
`as_bytes` of what it returns: all of them when there is an error string, and
all but those four zero bytes when there is none.
-/

namespace RuskProofs.Wire

/-- `utf8Decode` on a first byte: the equation Lean does not derive for the
nested matches of its definition. -/
theorem utf8Decode_cons (b0 : UInt8) (rest : Bytes) :
    utf8Decode (b0 :: rest) =
      let c0 := b0.toNat
      if c0 < 0x80 then (Char.ofNat c0 :: ·) <$> utf8Decode rest
      else match rest with
        | [] => none
        | b1 :: rest1 =>
          let c1 := b1.toNat
          if 0xC0 ≤ c0 ∧ c0 < 0xE0 then
            let v := (c0 - 0xC0) * 64 + (c1 - 0x80)
            if isContinuation c1 ∧ 0x80 ≤ v then (Char.ofNat v :: ·) <$> utf8Decode rest1
            else none
          else match rest1 with
            | [] => none
            | b2 :: rest2 =>
              let c2 := b2.toNat
              if 0xE0 ≤ c0 ∧ c0 < 0xF0 then
                let v := (c0 - 0xE0) * 4096 + (c1 - 0x80) * 64 + (c2 - 0x80)
                if isContinuation c1 ∧ isContinuation c2 ∧ 0x800 ≤ v ∧ (v < 0xD800 ∨ 0xDFFF < v) then
                  (Char.ofNat v :: ·) <$> utf8Decode rest2
                else none
              else match rest2 with
                | [] => none
                | b3 :: rest3 =>
                  let c3 := b3.toNat
                  let v := (c0 - 0xF0) * 262144 + (c1 - 0x80) * 4096 + (c2 - 0x80) * 64 + (c3 - 0x80)
                  if 0xF0 ≤ c0 ∧ c0 < 0xF8 ∧ isContinuation c1 ∧ isContinuation c2 ∧
                      isContinuation c3 ∧ 0x10000 ≤ v ∧ v < 0x110000 then
                    (Char.ofNat v :: ·) <$> utf8Decode rest3
                  else none := by
  rcases rest with _ | ⟨b1, _ | ⟨b2, _ | ⟨b3, rest3⟩⟩⟩ <;> rfl

theorem utf8Decode_one {b : UInt8} (rest : Bytes) (h : b.toNat < 0x80) :
    utf8Decode (b :: rest) = (Char.ofNat b.toNat :: ·) <$> utf8Decode rest := by
  rw [utf8Decode_cons]; exact if_pos h

theorem utf8Decode_two {b0 b1 : UInt8} (rest : Bytes) (h0 : 0xC0 ≤ b0.toNat ∧ b0.toNat < 0xE0)
    (h1 : isContinuation b1.toNat) (hv : 0x80 ≤ (b0.toNat - 0xC0) * 64 + (b1.toNat - 0x80)) :
    utf8Decode (b0 :: b1 :: rest) =
      (Char.ofNat ((b0.toNat - 0xC0) * 64 + (b1.toNat - 0x80)) :: ·) <$> utf8Decode rest := by
  rw [utf8Decode_cons]; dsimp only; rw [if_neg (by omega), if_pos h0, if_pos ⟨h1, hv⟩]

theorem utf8Decode_three {b0 b1 b2 : UInt8} (rest : Bytes) (h0 : 0xE0 ≤ b0.toNat ∧ b0.toNat < 0xF0)
    (h1 : isContinuation b1.toNat) (h2 : isContinuation b2.toNat)
    (hv : 0x800 ≤ (b0.toNat - 0xE0) * 4096 + (b1.toNat - 0x80) * 64 + (b2.toNat - 0x80) ∧
      ((b0.toNat - 0xE0) * 4096 + (b1.toNat - 0x80) * 64 + (b2.toNat - 0x80) < 0xD800 ∨
        0xDFFF < (b0.toNat - 0xE0) * 4096 + (b1.toNat - 0x80) * 64 + (b2.toNat - 0x80))) :
    utf8Decode (b0 :: b1 :: b2 :: rest) =
      (Char.ofNat ((b0.toNat - 0xE0) * 4096 + (b1.toNat - 0x80) * 64 + (b2.toNat - 0x80)) :: ·) <$>
        utf8Decode rest := by
  rw [utf8Decode_cons]; dsimp only
  rw [if_neg (by omega), if_neg (by omega), if_pos h0, if_pos ⟨h1, h2, hv⟩]

theorem utf8Decode_four {b0 b1 b2 b3 : UInt8} (rest : Bytes) (h0 : 0xF0 ≤ b0.toNat ∧ b0.toNat < 0xF8)
    (h1 : isContinuation b1.toNat) (h2 : isContinuation b2.toNat) (h3 : isContinuation b3.toNat)
    (hv : 0x10000 ≤ (b0.toNat - 0xF0) * 262144 + (b1.toNat - 0x80) * 4096 + (b2.toNat - 0x80) * 64 +
        (b3.toNat - 0x80) ∧
      (b0.toNat - 0xF0) * 262144 + (b1.toNat - 0x80) * 4096 + (b2.toNat - 0x80) * 64 +
        (b3.toNat - 0x80) < 0x110000) :
    utf8Decode (b0 :: b1 :: b2 :: b3 :: rest) =
      (Char.ofNat ((b0.toNat - 0xF0) * 262144 + (b1.toNat - 0x80) * 4096 + (b2.toNat - 0x80) * 64 +
        (b3.toNat - 0x80)) :: ·) <$> utf8Decode rest := by
  rw [utf8Decode_cons]; dsimp only
  rw [if_neg (by omega), if_neg (by omega), if_neg (by omega), if_pos ⟨h0.1, h0.2, h1, h2, h3, hv⟩]

theorem lowBits_or_toNat (x m c : UInt8) (i q : Nat) (hm : m.toNat = 2 ^ i - 1)
    (hc : c.toNat = 2 ^ i * q) : (x &&& m ||| c).toNat = 2 ^ i * q + x.toNat % 2 ^ i := by
  rw [show (x &&& m ||| c).toNat = (x &&& m).toNat ||| c.toNat from BitVec.toNat_or _ _,
    UInt8.and_toNat, hm, hc, Nat.and_pow_two_sub_one_eq_mod, Nat.lor_comm,
    ← Nat.mul_add_lt_is_or (Nat.mod_lt _ (Nat.two_pow_pos i))]

/-- The byte `utf8EncodeChar` takes from the bits of `x` at and above `k`,
masked to its low `i` bits and marked with `2 ^ i * q`. -/
theorem utf8Byte_toNat (x k : UInt32) (m c : UInt8) (i q : Nat) (hk : k.toNat < 32)
    (hi : i ≤ 8) (hm : m.toNat = 2 ^ i - 1) (hc : c.toNat = 2 ^ i * q) :
    ((x >>> k).toUInt8 &&& m ||| c).toNat = 2 ^ i * q + x.toNat / 2 ^ k.toNat % 2 ^ i := by
  have hmod : k.toBitVec.toNat % 32 = k.toBitVec.toNat := Nat.mod_eq_of_lt hk
  have hshift : (x >>> k).toUInt8.toNat = x.toNat / 2 ^ k.toNat % 2 ^ 8 := by
    show (UInt32.shiftRight x k).toNat % 256 = _
    simp [UInt32.shiftRight, UInt32.toNat, Nat.shiftRight_eq_div_pow, UInt32.mod, hmod]
  rw [lowBits_or_toNat _ _ _ i q hm hc, hshift,
    Nat.mod_mod_of_dvd _ (Nat.pow_dvd_pow 2 hi)]

theorem utf8Decode_encodeChar (c : Char) (rest : Bytes) :
    utf8Decode (String.utf8EncodeChar c ++ rest) = (c :: ·) <$> utf8Decode rest := by
  have hv : c.val.toNat < 0xd800 ∨ (0xdfff < c.val.toNat ∧ c.val.toNat < 0x110000) := c.valid
  have key : ∀ v, v = c.val.toNat →
      ((Char.ofNat v :: ·) <$> utf8Decode rest) = ((c :: ·) <$> utf8Decode rest) := by
    rintro _ rfl; exact congrArg (fun d => (d :: ·) <$> utf8Decode rest) (Char.ofNat_toNat c)
  have byte := fun k m d i q (hk : k.toNat < 32) (hi : i ≤ 8) hm hd =>
    utf8Byte_toNat c.val k m d i q hk hi hm hd
  have low := byte 0 0x3f 0x80 6 2 (by decide) (by decide) rfl rfl
  have mid := byte 6 0x3f 0x80 6 2 (by decide) (by decide) rfl rfl
  have high := byte 12 0x3f 0x80 6 2 (by decide) (by decide) rfl rfl
  simp only [show (0 : UInt32).toNat = 0 from rfl, show (6 : UInt32).toNat = 6 from rfl,
    show (12 : UInt32).toNat = 12 from rfl, show c.val >>> 0 = c.val from rfl, Nat.reducePow,
    Nat.reduceMul, Nat.div_one] at low mid high
  unfold String.utf8EncodeChar
  dsimp only
  split_ifs with h1 h2 h3
  · have h1 : c.val.toNat ≤ 127 := h1
    have e : c.val.toUInt8.toNat = c.val.toNat := by show c.val.toNat % 256 = _; omega
    rw [List.singleton_append, utf8Decode_one _ (by omega), e]
    exact key _ rfl
  · have h1 : ¬ c.val.toNat ≤ 127 := h1
    have h2 : c.val.toNat ≤ 2047 := h2
    have lead := byte 6 0x1f 0xc0 5 6 (by decide) (by decide) rfl rfl
    simp only [show (6 : UInt32).toNat = 6 from rfl, Nat.reducePow, Nat.reduceMul] at lead
    rw [List.cons_append, List.singleton_append,
      utf8Decode_two _ (by omega) (by simp [isContinuation, low]; omega) (by omega)]
    exact key _ (by omega)
  · have h2 : ¬ c.val.toNat ≤ 2047 := h2
    have h3 : c.val.toNat ≤ 65535 := h3
    have lead := byte 12 0x0f 0xe0 4 14 (by decide) (by decide) rfl rfl
    simp only [show (12 : UInt32).toNat = 12 from rfl, Nat.reducePow, Nat.reduceMul] at lead
    rw [List.cons_append, List.cons_append, List.singleton_append,
      utf8Decode_three _ (by omega) (by simp [isContinuation, mid]; omega)
        (by simp [isContinuation, low]; omega) (by omega)]
    exact key _ (by omega)
  · have h3 : ¬ c.val.toNat ≤ 65535 := h3
    have lead := byte 18 0x07 0xf0 3 30 (by decide) (by decide) rfl rfl
    simp only [show (18 : UInt32).toNat = 18 from rfl, Nat.reducePow, Nat.reduceMul] at lead
    rw [List.cons_append, List.cons_append, List.cons_append, List.singleton_append,
      utf8Decode_four _ (by omega) (by simp [isContinuation, high]; omega)
        (by simp [isContinuation, mid]; omega) (by simp [isContinuation, low]; omega) (by omega)]
    exact key _ (by omega)

theorem utf8Decode_utf8Bytes (e : String) : utf8Decode (utf8Bytes e) = some e.data := by
  obtain ⟨cs⟩ := e
  induction cs with
  | nil => rfl
  | cons c cs ih =>
    simp only [utf8Bytes, List.flatMap_cons] at ih ⊢
    rw [utf8Decode_encodeChar, ih]
    rfl

theorem writeU64Le_zero : writeU64Le 0 = writeU32Le 0 ++ [0, 0, 0, 0] := rfl

/-- What the decoder makes of an encoded spent transaction: the transaction
itself when its error is a non-empty string; no error when it is the empty
string; and, when there is no error, the transaction with four zero bytes
left before the rest. -/
theorem readSpentTransaction_write {X : Externals} (hX : X.RoundTrip) (x : X.SpentTransaction)
    (hinner : (X.toVarBytes x.inner.inner).length < 2 ^ 32)
    (herr : ∀ e, x.err = some e → (utf8Bytes e).length < 2 ^ 32) (rest : Bytes) :
    readSpentTransaction X (writeSpentTransaction X x ++ rest) =
      match x.err with
      | none => .ok x ([0, 0, 0, 0] ++ rest)
      | some e => if e = "" then .ok { x with err := none } rest else .ok x rest := by
  obtain ⟨inner, blockHeight, gasSpent, eco, err⟩ := x
  cases err with
  | none =>
    simp only [writeSpentTransaction, readSpentTransaction, List.append_assoc, writeU64Le_zero,
      Reader.bind_ok (readTransaction_write hX _ hinner _),
      Reader.bind_ok (readU64Le_writeU64Le _ _), Reader.bind_ok (readBytes_append _ _),
      Reader.bind_ok (readU32Le_writeU32Le _ _), hX.economicMode]
    rfl
  | some e =>
    by_cases he : e = ""
    · subst he
      simp only [writeSpentTransaction, readSpentTransaction, List.append_assoc,
        show utf8Bytes "" = [] from rfl, List.length_nil, List.nil_append,
        Reader.bind_ok (readTransaction_write hX _ hinner _),
        Reader.bind_ok (readU64Le_writeU64Le _ _), Reader.bind_ok (readBytes_append _ _),
        Reader.bind_ok (readU32Le_writeU32Le _ _), hX.economicMode, if_true]
      rfl
    · have hcount := UInt32.toNat_ofNat_of_lt (herr e rfl)
      have hpos : UInt32.ofNat (utf8Bytes e).length > 0 := by
        show 0 < (UInt32.ofNat _).toNat
        rw [hcount]
        obtain ⟨_ | ⟨c, cs⟩⟩ := e
        · exact absurd rfl he
        · simp only [utf8Bytes, List.flatMap_cons, List.length_append,
            String.length_utf8EncodeChar]
          exact Nat.lt_of_lt_of_le c.utf8Size_pos (Nat.le_add_right _ _)
      simp only [writeSpentTransaction, readSpentTransaction, List.append_assoc,
        Reader.bind_ok (readTransaction_write hX _ hinner _),
        Reader.bind_ok (readU64Le_writeU64Le _ _), Reader.bind_ok (readBytes_append _ _),
        Reader.bind_ok (readU32Le_writeU32Le _ _), hX.economicMode, if_pos hpos, hcount,
        Reader.bind_ok (readExact_append _ _), utf8Decode_utf8Bytes, if_neg he]
      rfl

/-- A spent transaction of a one-byte Phoenix payload reads back with four
zero bytes left over when it has no error, and without an error when its error
is the empty string. -/
theorem spent_transaction_error_does_not_round_trip :
    readSpentTransaction payloadExternals (writeSpentTransaction payloadExternals
        ⟨payloadTransaction, 7, 21000, ⟨List.replicate 9 0, rfl⟩, none⟩) =
      .ok ⟨payloadTransaction, 7, 21000, ⟨List.replicate 9 0, rfl⟩, none⟩ [0, 0, 0, 0] ∧
    readSpentTransaction payloadExternals (writeSpentTransaction payloadExternals
        ⟨payloadTransaction, 7, 21000, ⟨List.replicate 9 0, rfl⟩, some ""⟩) =
      .ok ⟨payloadTransaction, 7, 21000, ⟨List.replicate 9 0, rfl⟩, none⟩ [] := by
  have hnone := readSpentTransaction_write payloadExternals_roundTrip
    ⟨payloadTransaction, 7, 21000, ⟨List.replicate 9 0, rfl⟩, none⟩ (by decide)
    (fun _ h => nomatch h) []
  have hempty := readSpentTransaction_write payloadExternals_roundTrip
    ⟨payloadTransaction, 7, 21000, ⟨List.replicate 9 0, rfl⟩, some ""⟩ (by decide)
    (fun _ h => by cases h; decide) []
  rw [List.append_nil] at hnone hempty
  exact ⟨hnone, hempty⟩

end RuskProofs.Wire
