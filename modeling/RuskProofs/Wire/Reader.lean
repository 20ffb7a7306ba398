import Mathlib.Data.Nat.Bitwise

/-!
Byte readers for the `Serializable` implementations of `node-data`. A reader
takes the bytes still unread and yields a value with the bytes it left, an
`io::Error`, or a panic, which a Rust `Read` impl reaches through `panic!`,
`expect` or `unreachable!`. The fixed-width integer helpers of the trait
(`read_u8`, `read_u32_le`, `read_u64_le`, `read_bytes`,
`read_var_le_bytes32` and their writers) are modelled from the spec's wire
format: little-endian, with a `u32` length in front of variable bytes.
-/

namespace RuskProofs.Wire

abbrev Bytes := List UInt8

inductive ErrorKind where
  | unexpectedEof
  | invalidData
deriving DecidableEq

/-- `io::Error`: its kind and, for `io::Error::new`, its message. -/
structure IoError where
  kind : ErrorKind
  message : Option String
deriving DecidableEq

inductive Decoded (α : Type) where
  | ok (value : α) (rest : Bytes)
  | err (e : IoError)
  | panic (msg : String)
deriving DecidableEq

def Reader (α : Type) := Bytes → Decoded α

namespace Reader

def pure (x : α) : Reader α := fun b => .ok x b

def bind (r : Reader α) (f : α → Reader β) : Reader β := fun b =>
  match r b with
  | .ok x rest => f x rest
  | .err e => .err e
  | .panic m => .panic m

instance : Monad Reader where
  pure := Reader.pure
  bind := Reader.bind

def fail (e : IoError) : Reader α := fun _ => .err e

def panic (msg : String) : Reader α := fun _ => .panic msg

@[simp] theorem pure_apply (x : α) (b : Bytes) : (Pure.pure x : Reader α) b = .ok x b := rfl

@[simp] theorem fail_apply (e : IoError) (b : Bytes) : (fail e : Reader α) b = .err e := rfl

@[simp] theorem panic_apply (msg : String) (b : Bytes) : (panic msg : Reader α) b = .panic msg :=
  rfl

theorem bind_apply (r : Reader α) (f : α → Reader β) (b : Bytes) :
    (r >>= f) b = match r b with
      | .ok x rest => f x rest
      | .err e => .err e
      | .panic m => .panic m := rfl

theorem bind_ok {r : Reader α} {b : Bytes} {x : α} {rest : Bytes} (h : r b = .ok x rest)
    (f : α → Reader β) : (r >>= f) b = f x rest := by
  rw [bind_apply, h]

/-- What a bind can return: its second part's answer after the first part's
success, or the first part's error or panic. -/
theorem bind_eq_ok {r : Reader α} {f : α → Reader β} {b : Bytes} {y : β} {rest : Bytes}
    (h : (r >>= f) b = .ok y rest) : ∃ x mid, r b = .ok x mid ∧ f x mid = .ok y rest := by
  rw [bind_apply] at h
  split at h
  · exact ⟨_, _, ‹_›, h⟩
  · cases h
  · cases h

theorem bind_ne_panic {r : Reader α} {f : α → Reader β} {b : Bytes}
    (hr : ∀ m, r b ≠ .panic m) (hf : ∀ x mid, r b = .ok x mid → ∀ m, f x mid ≠ .panic m) :
    ∀ m, (r >>= f) b ≠ .panic m := by
  intro m h
  rw [bind_apply] at h
  split at h
  · exact hf _ _ ‹_› m h
  · cases h
  · exact hr _ ‹_›

end Reader

/-- `read` takes back what `write` wrote and leaves whatever followed. -/
def RoundTrips (write : α → Bytes) (read : Reader α) : Prop :=
  ∀ x rest, read (write x ++ rest) = .ok x rest

/-- Every accepted encoding is the one `write` produces. -/
def Canonical (write : α → Bytes) (read : Reader α) : Prop :=
  ∀ b x rest, read b = .ok x rest → b = write x ++ rest

def NeverPanics (read : Reader α) : Prop :=
  ∀ b m, read b ≠ .panic m

theorem NeverPanics.pure (x : α) : NeverPanics (Pure.pure x : Reader α) :=
  fun _ _ h => by cases h

theorem NeverPanics.fail (e : IoError) : NeverPanics (Reader.fail e : Reader α) :=
  fun _ _ h => by cases h

theorem NeverPanics.bind {r : Reader α} {f : α → Reader β} (hr : NeverPanics r)
    (hf : ∀ x, NeverPanics (f x)) : NeverPanics (r >>= f) :=
  fun b => Reader.bind_ne_panic (hr b) fun x mid _ => hf x mid

/-- The `n` low bytes of `v`, least significant first. -/
def leBytes : Nat → Nat → Bytes
  | 0, _ => []
  | n + 1, v => UInt8.ofNat v :: leBytes n (v / 256)

/-- The number whose little-endian bytes these are. -/
def leValue : Bytes → Nat
  | [] => 0
  | b :: bs => b.toNat + 256 * leValue bs

@[simp] theorem leBytes_length (n v : Nat) : (leBytes n v).length = n := by
  induction n generalizing v with
  | zero => rfl
  | succ n ih => simp [leBytes, ih]

theorem uint8_toNat_ofNat (v : Nat) : (UInt8.ofNat v).toNat = v % 256 := by
  simp [UInt8.toNat, UInt8.ofNat]

theorem leValue_leBytes (n v : Nat) : leValue (leBytes n v) = v % 256 ^ n := by
  induction n generalizing v with
  | zero => simp [leBytes, leValue, Nat.mod_one]
  | succ n ih =>
      rw [leBytes, leValue, ih, uint8_toNat_ofNat, Nat.pow_succ']
      exact Nat.mod_mul.symm

theorem leValue_lt (bs : Bytes) : leValue bs < 256 ^ bs.length := by
  induction bs with
  | nil => simp [leValue]
  | cons b bs ih =>
      have hb : b.toNat < 256 := b.toBitVec.isLt
      rw [leValue, List.length_cons, Nat.pow_succ']
      omega

theorem uint8_ofNat_toNat (b : UInt8) : UInt8.ofNat b.toNat = b :=
  UInt8.eq_of_toBitVec_eq (by simp [UInt8.toNat, UInt8.ofNat])

theorem leBytes_leValue (bs : Bytes) : leBytes bs.length (leValue bs) = bs := by
  induction bs with
  | nil => rfl
  | cons b bs ih =>
      have hb : b.toNat < 256 := b.toBitVec.isLt
      have hb' : b.toBitVec.toNat < 256 := b.toBitVec.isLt
      have hdiv : (b.toNat + 256 * leValue bs) / 256 = leValue bs := by omega
      have hmod : UInt8.ofNat (b.toNat + 256 * leValue bs) = b := by
        apply UInt8.eq_of_toBitVec_eq
        apply BitVec.eq_of_toNat_eq
        simp [UInt8.ofNat, UInt8.toNat]
        omega
      rw [List.length_cons, leBytes, leValue, hdiv, hmod, ih]

def unexpectedEof : IoError := ⟨.unexpectedEof, none⟩

/-- `read_exact` into a buffer of `n` bytes. -/
def readExact (n : Nat) : Reader Bytes := fun b =>
  if n ≤ b.length then .ok (b.take n) (b.drop n) else .err unexpectedEof

/-- A little-endian unsigned number of `n` bytes. -/
def readLe (n : Nat) : Reader Nat := do
  let bs ← readExact n
  pure (leValue bs)

def readU8 : Reader UInt8 := do
  let v ← readLe 1
  pure (UInt8.ofNat v)

def readU32Le : Reader UInt32 := do
  let v ← readLe 4
  pure (UInt32.ofNat v)

def readU64Le : Reader UInt64 := do
  let v ← readLe 8
  pure (UInt64.ofNat v)

def writeU8 (x : UInt8) : Bytes := leBytes 1 x.toNat

def writeU32Le (x : UInt32) : Bytes := leBytes 4 x.toNat

def writeU64Le (x : UInt64) : Bytes := leBytes 8 x.toNat

/-- `[u8; N]`. -/
structure FixedBytes (n : Nat) where
  bytes : Bytes
  length_eq : bytes.length = n
deriving DecidableEq

/-- `read_bytes::<N>`. -/
def readBytes (n : Nat) : Reader (FixedBytes n) := fun b =>
  if h : n ≤ b.length then .ok ⟨b.take n, by simp [h]⟩ (b.drop n) else .err unexpectedEof

/-- `write_var_le_bytes32`: the length as `u32`, then the bytes. -/
def writeVarLeBytes32 (buf : Bytes) : Bytes := leBytes 4 buf.length ++ buf

/-- `read_var_le_bytes32`. -/
def readVarLeBytes32 : Reader Bytes := do
  let len ← readU32Le
  readExact len.toNat

theorem readExact_append (bs rest : Bytes) :
    readExact bs.length (bs ++ rest) = .ok bs rest := by
  simp [readExact, List.take_left, List.drop_left]

theorem readExact_ok {n : Nat} {b bs rest : Bytes} (h : readExact n b = .ok bs rest) :
    bs.length = n ∧ b = bs ++ rest := by
  unfold readExact at h
  split at h
  · cases h; exact ⟨by simp [*], (List.take_append_drop n b).symm⟩
  · cases h

theorem readLe_leBytes (n v : Nat) (rest : Bytes) :
    readLe n (leBytes n v ++ rest) = .ok (v % 256 ^ n) rest := by
  have h := readExact_append (leBytes n v) rest
  rw [leBytes_length] at h
  simp only [readLe, Reader.bind_ok h, Reader.pure_apply, leValue_leBytes]

theorem readLe_ok {n : Nat} {b rest : Bytes} {v : Nat} (h : readLe n b = .ok v rest) :
    b = leBytes n v ++ rest ∧ v < 256 ^ n := by
  obtain ⟨bs, mid, hbs, hv⟩ := Reader.bind_eq_ok h
  cases hv
  obtain ⟨hlen, rfl⟩ := readExact_ok hbs
  subst hlen
  exact ⟨by rw [leBytes_leValue], leValue_lt bs⟩

theorem readU8_writeU8 (x : UInt8) (rest : Bytes) : readU8 (writeU8 x ++ rest) = .ok x rest := by
  have hx : x.toNat % 256 ^ 1 = x.toNat := Nat.mod_eq_of_lt x.toBitVec.isLt
  simp only [readU8, writeU8, Reader.bind_ok (readLe_leBytes 1 x.toNat rest), hx,
    Reader.pure_apply, uint8_ofNat_toNat]

theorem readU32Le_writeU32Le (x : UInt32) (rest : Bytes) :
    readU32Le (writeU32Le x ++ rest) = .ok x rest := by
  have hx : x.toNat % 256 ^ 4 = x.toNat := Nat.mod_eq_of_lt x.toBitVec.isLt
  have hofNat : UInt32.ofNat x.toNat = x :=
    UInt32.eq_of_toBitVec_eq (by simp [UInt32.toNat, UInt32.ofNat])
  simp only [readU32Le, writeU32Le, Reader.bind_ok (readLe_leBytes 4 x.toNat rest), hx,
    Reader.pure_apply, hofNat]

theorem readU64Le_writeU64Le (x : UInt64) (rest : Bytes) :
    readU64Le (writeU64Le x ++ rest) = .ok x rest := by
  have hx : x.toNat % 256 ^ 8 = x.toNat := Nat.mod_eq_of_lt x.toBitVec.isLt
  have hofNat : UInt64.ofNat x.toNat = x :=
    UInt64.eq_of_toBitVec_eq (by simp [UInt64.toNat, UInt64.ofNat])
  simp only [readU64Le, writeU64Le, Reader.bind_ok (readLe_leBytes 8 x.toNat rest), hx,
    Reader.pure_apply, hofNat]

theorem writeU8_eq (x : UInt8) : writeU8 x = [x] := by
  simp [writeU8, leBytes, uint8_ofNat_toNat]

theorem readU8_cons (x : UInt8) (rest : Bytes) : readU8 (x :: rest) = .ok x rest := by
  simpa [writeU8_eq] using readU8_writeU8 x rest

theorem readU8_canonical : Canonical writeU8 readU8 := by
  intro b x rest h
  obtain ⟨v, mid, hv, hx⟩ := Reader.bind_eq_ok h
  cases hx
  obtain ⟨rfl, hlt⟩ := readLe_ok hv
  rw [writeU8, uint8_toNat_ofNat, Nat.mod_eq_of_lt (by simpa using hlt)]

theorem readU32Le_canonical : Canonical writeU32Le readU32Le := by
  intro b x rest h
  obtain ⟨v, mid, hv, hx⟩ := Reader.bind_eq_ok h
  cases hx
  obtain ⟨rfl, hlt⟩ := readLe_ok hv
  rw [writeU32Le, UInt32.toNat_ofNat_of_lt (by simpa using hlt)]

theorem readU64Le_canonical : Canonical writeU64Le readU64Le := by
  intro b x rest h
  obtain ⟨v, mid, hv, hx⟩ := Reader.bind_eq_ok h
  cases hx
  obtain ⟨rfl, hlt⟩ := readLe_ok hv
  have : (UInt64.ofNat v).toNat = v := by
    simp only [UInt64.toNat, UInt64.ofNat, BitVec.toNat_ofNat]
    exact Nat.mod_eq_of_lt (by simpa using hlt)
  rw [writeU64Le, this]

theorem readBytes_append {n : Nat} (x : FixedBytes n) (rest : Bytes) :
    readBytes n (x.bytes ++ rest) = .ok x rest := by
  obtain ⟨bs, rfl⟩ := x
  simp [readBytes, List.take_left, List.drop_left]

theorem readBytes_canonical (n : Nat) :
    Canonical (fun x : FixedBytes n => x.bytes) (readBytes n) := by
  intro b x rest h
  unfold readBytes at h
  split at h
  · cases h; exact (List.take_append_drop n b).symm
  · cases h

theorem readVarLeBytes32_writeVarLeBytes32 (buf rest : Bytes) (hlen : buf.length < 2 ^ 32) :
    readVarLeBytes32 (writeVarLeBytes32 buf ++ rest) = .ok buf rest := by
  have hread : readU32Le (leBytes 4 buf.length ++ (buf ++ rest)) =
      .ok (UInt32.ofNat buf.length) (buf ++ rest) := by
    simp only [readU32Le, Reader.bind_ok (readLe_leBytes 4 buf.length _), Reader.pure_apply,
      Nat.mod_eq_of_lt (show buf.length < 256 ^ 4 from hlen)]
  rw [writeVarLeBytes32, List.append_assoc, readVarLeBytes32, Reader.bind_ok hread, UInt32.toNat_ofNat_of_lt hlen,
    readExact_append]

theorem readVarLeBytes32_canonical : Canonical writeVarLeBytes32 readVarLeBytes32 := by
  intro b buf rest h
  obtain ⟨len, mid, hl, hbuf⟩ := Reader.bind_eq_ok h
  obtain ⟨hn, rfl⟩ := readExact_ok hbuf
  rw [readU32Le_canonical b len _ hl, writeU32Le, ← hn, writeVarLeBytes32, List.append_assoc]

theorem readExact_ne_panic (n : Nat) : NeverPanics (readExact n) := by
  intro b m h
  unfold readExact at h
  split at h <;> cases h

theorem readLe_ne_panic (n : Nat) : NeverPanics (readLe n) :=
  fun b => Reader.bind_ne_panic (readExact_ne_panic n b) fun _ _ _ _ h => by cases h

theorem readU8_ne_panic : NeverPanics readU8 :=
  fun b => Reader.bind_ne_panic (readLe_ne_panic 1 b) fun _ _ _ _ h => by cases h

theorem readU32Le_ne_panic : NeverPanics readU32Le :=
  fun b => Reader.bind_ne_panic (readLe_ne_panic 4 b) fun _ _ _ _ h => by cases h

theorem readU64Le_ne_panic : NeverPanics readU64Le :=
  fun b => Reader.bind_ne_panic (readLe_ne_panic 8 b) fun _ _ _ _ h => by cases h

theorem readBytes_ne_panic (n : Nat) : NeverPanics (readBytes n) := by
  intro b m h
  unfold readBytes at h
  split at h <;> cases h

theorem readVarLeBytes32_ne_panic : NeverPanics readVarLeBytes32 :=
  fun b => Reader.bind_ne_panic (readU32Le_ne_panic b) fun _ mid _ => readExact_ne_panic _ mid

end RuskProofs.Wire
