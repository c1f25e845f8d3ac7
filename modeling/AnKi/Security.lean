import AnKi.Library.Base64

/-!
# security.rs: tokens that expire, and encrypt_message and decrypt_message

The expiry of a token is computed by the time library, which panics out of its
ranges, and cast to an unsigned number. Points in time are whole seconds since the
UNIX epoch: adding minutes leaves the fraction of a second alone.

`encrypt_message` and `decrypt_message` both compute a MAC and neither inverts it:
what `decrypt_message` returns is the MAC of the MAC of the message. HMAC-SHA256 is
any function of a key and a text to 32 bytes; it takes keys of every length.
-/

namespace AnKi.Security
open Files
set_option autoImplicit false

/-! ## Tokens -/

section Tokens

/-- The ranges of the time library, in seconds. -/
structure Chrono where
  longest : Nat
  earliest : Int
  latest : Int
  earliest_le : earliest ≤ 0
  latest_lt : latest < 2 ^ 63

/-- `Duration::minutes`. It panics out of range. -/
def Chrono.minutes (chrono : Chrono) (minutes : Int64) : Option Int :=
  if (60 * minutes.toInt).natAbs ≤ chrono.longest then some (60 * minutes.toInt) else none

/-- The sum of a point in time and a duration. It panics out of range. -/
def Chrono.add (chrono : Chrono) (time duration : Int) : Option Int :=
  if chrono.earliest ≤ time + duration ∧ time + duration ≤ chrono.latest then
    some (time + duration)
  else none

structure Claims where
  sub : String
  role : String
  exp : UInt64
  deriving DecidableEq

/-- Signing and reading of tokens. The check of the expiry is in `verifyToken`. -/
structure Jwt (E : Type) where
  encode : Claims → Except E String
  decode : String → Except E Claims
  decode_encode : ∀ claims token, encode claims = .ok token → decode token = .ok claims

inductive TokenError (E : Type) where
  | invalid (e : E)
  | expiredSignature

variable {E : Type}

/-- The result, or `none` when the call panics. -/
def generateToken (chrono : Chrono) (jwt : Jwt E) (now : Nat) (nodeId role : String)
    (expirationMinutes : Int64) : Option (Except E String) := do
  let duration ← chrono.minutes expirationMinutes
  let expiration ← chrono.add now duration
  -- `expiration.timestamp() as usize` keeps the bits of the signed number
  some (jwt.encode ⟨nodeId, role, UInt64.ofInt expiration⟩)

def verifyToken (jwt : Jwt E) (leeway time : Nat) (token : String) :
    Except (TokenError E) Claims :=
  match jwt.decode token with
  | .error e => .error (.invalid e)
  | .ok claims =>
    if claims.exp.toNat + leeway < time then .error .expiredSignature else .ok claims

/-- The call does not panic, and a token it returns expires when it should. -/
structure ExpiresExactly (chrono : Chrono) (jwt : Jwt E) (leeway now : Nat)
    (nodeId role : String) (minutes : Int64) : Prop where
  returns : ∃ result, generateToken chrono jwt now nodeId role minutes = some result
  exact : ∀ token, generateToken chrono jwt now nodeId role minutes = some (.ok token) →
    ∃ claims, jwt.decode token = .ok claims ∧ (claims.exp.toNat : Int) = now + 60 * minutes.toInt
  ordered : ∀ longer token token' claims claims', minutes ≤ longer →
    generateToken chrono jwt now nodeId role minutes = some (.ok token) →
    generateToken chrono jwt now nodeId role longer = some (.ok token') →
    jwt.decode token = .ok claims → jwt.decode token' = .ok claims' → claims.exp ≤ claims'.exp
  expires : ∀ token, generateToken chrono jwt now nodeId role minutes = some (.ok token) →
    ∀ time : Nat, now + 60 * minutes.toInt + leeway < time →
      ∀ claims, verifyToken jwt leeway time token ≠ .ok claims

/-- So it is whatever signs the tokens. -/
def ExactExpiry (chrono : Chrono) (leeway now : Nat) (nodeId role : String) (minutes : Int64) :
    Prop := ∀ (E : Type) (jwt : Jwt E), ExpiresExactly chrono jwt leeway now nodeId role minutes

/-- The lifetime and the expiry are in the ranges of the time library, and the expiry is not
before 1970. -/
structure Timely (chrono : Chrono) (now : Nat) (minutes : Int64) : Prop where
  lifetime : (60 * minutes.toInt).natAbs ≤ chrono.longest
  nonneg : 0 ≤ now + 60 * minutes.toInt
  le : now + 60 * minutes.toInt ≤ chrono.latest

theorem Chrono.minutes_eq_some_iff {chrono : Chrono} {minutes : Int64} {duration : Int} :
    chrono.minutes minutes = some duration ↔
      (60 * minutes.toInt).natAbs ≤ chrono.longest ∧ 60 * minutes.toInt = duration := by
  simp [Chrono.minutes]

theorem Chrono.add_eq_some_iff {chrono : Chrono} {time duration expiration : Int} :
    chrono.add time duration = some expiration ↔
      (chrono.earliest ≤ time + duration ∧ time + duration ≤ chrono.latest) ∧
        time + duration = expiration := by
  simp [Chrono.add]

theorem generateToken_eq_some_iff {chrono : Chrono} {jwt : Jwt E} {now : Nat}
    {nodeId role : String} {minutes : Int64} {result : Except E String} :
    generateToken chrono jwt now nodeId role minutes = some result ↔
      (60 * minutes.toInt).natAbs ≤ chrono.longest ∧
        (chrono.earliest ≤ now + 60 * minutes.toInt ∧ now + 60 * minutes.toInt ≤ chrono.latest) ∧
        jwt.encode ⟨nodeId, role, UInt64.ofInt (now + 60 * minutes.toInt)⟩ = result := by
  constructor
  · intro h
    obtain ⟨duration, hminutes, h⟩ := Option.bind_eq_some_iff.mp h
    obtain ⟨expiration, hadd, hencode⟩ := Option.bind_eq_some_iff.mp h
    obtain ⟨hlifetime, rfl⟩ := Chrono.minutes_eq_some_iff.mp hminutes
    obtain ⟨hrange, rfl⟩ := Chrono.add_eq_some_iff.mp hadd
    exact ⟨hlifetime, hrange, Option.some.inj hencode⟩
  · intro h
    obtain ⟨hlifetime, hrange, hencode⟩ := h
    simp only [generateToken, Chrono.minutes_eq_some_iff.mpr ⟨hlifetime, rfl⟩,
      Chrono.add_eq_some_iff.mpr ⟨hrange, rfl⟩, Option.bind_eq_bind, Option.bind_some, hencode]

theorem toNat_ofInt (x : Int) : (UInt64.ofInt x).toNat = (x % 2 ^ 64).toNat := by
  rw [UInt64.ofInt, UInt64.toNat_ofNat']
  omega

theorem toNat_ofInt_of_nonneg {x : Int} (h : 0 ≤ x) (hlt : x < 2 ^ 63) :
    ((UInt64.ofInt x).toNat : Int) = x := by
  have hnat := toNat_ofInt x
  omega

theorem Timely.exp_eq {chrono : Chrono} {jwt : Jwt E} {now : Nat} {nodeId role : String}
    {minutes : Int64} (h : Timely chrono now minutes) {token : String}
    (htoken : generateToken chrono jwt now nodeId role minutes = some (.ok token)) :
    ∃ claims, jwt.decode token = .ok claims ∧
      (claims.exp.toNat : Int) = now + 60 * minutes.toInt := by
  obtain ⟨_, _, hencode⟩ := generateToken_eq_some_iff.mp htoken
  refine ⟨_, jwt.decode_encode _ _ hencode, ?_⟩
  exact toNat_ofInt_of_nonneg h.nonneg (Int.lt_of_le_of_lt h.le chrono.latest_lt)

/-- A longer lifetime that does not panic is timely too. -/
theorem Timely.of_le {chrono : Chrono} {jwt : Jwt E} {now : Nat} {nodeId role : String}
    {minutes longer : Int64} (h : Timely chrono now minutes) (hle : minutes ≤ longer)
    {result : Except E String}
    (hresult : generateToken chrono jwt now nodeId role longer = some result) :
    Timely chrono now longer := by
  obtain ⟨hlifetime, hrange, _⟩ := generateToken_eq_some_iff.mp hresult
  have hminutes := Int64.le_iff_toInt_le.mp hle
  have hnonneg := h.nonneg
  exact ⟨hlifetime, by omega, hrange.2⟩

theorem Timely.expiresExactly {chrono : Chrono} {now : Nat} {minutes : Int64}
    (h : Timely chrono now minutes) (jwt : Jwt E) (leeway : Nat) (nodeId role : String) :
    ExpiresExactly chrono jwt leeway now nodeId role minutes where
  returns := by
    have hearliest : chrono.earliest ≤ now + 60 * minutes.toInt :=
      Int.le_trans chrono.earliest_le h.nonneg
    exact ⟨_, generateToken_eq_some_iff.mpr ⟨h.lifetime, ⟨hearliest, h.le⟩, rfl⟩⟩
  exact := by
    intro token htoken
    exact h.exp_eq htoken
  ordered := by
    intro longer token token' claims claims' hle htoken htoken' hdecode hdecode'
    obtain ⟨_, hclaims, hexp⟩ := h.exp_eq htoken
    obtain ⟨_, hclaims', hexp'⟩ := (h.of_le hle htoken').exp_eq htoken'
    obtain rfl := Except.ok.inj (hdecode.symm.trans hclaims)
    obtain rfl := Except.ok.inj (hdecode'.symm.trans hclaims')
    have hminutes := Int64.le_iff_toInt_le.mp hle
    rw [UInt64.le_iff_toNat_le]
    omega
  expires := by
    intro token htoken time htime claims hverify
    obtain ⟨decoded, hdecode, hexp⟩ := h.exp_eq htoken
    have hexpired : decoded.exp.toNat + leeway < time := by omega
    simp [verifyToken, hdecode, hexpired] at hverify

/-- A library that signs only these claims. -/
def signing (claims : Claims) : Jwt Unit where
  encode presented := if presented = claims then .ok "token" else .error ()
  decode _ := .ok claims
  decode_encode := by
    intro presented token h
    split at h
    · rename_i hclaims
      rw [hclaims]
    · cases h

/-- Tokens expire exactly when the lifetime is in the range of durations and the expiry between
1970 and the latest point in time. -/
theorem exactExpiry_iff {chrono : Chrono} {leeway now : Nat} {nodeId role : String}
    {minutes : Int64} :
    ExactExpiry chrono leeway now nodeId role minutes ↔ Timely chrono now minutes := by
  constructor
  · intro h
    have hexpires := h Unit (signing ⟨nodeId, role, UInt64.ofInt (now + 60 * minutes.toInt)⟩)
    obtain ⟨result, hresult⟩ := hexpires.returns
    obtain ⟨hlifetime, hrange, hencode⟩ := generateToken_eq_some_iff.mp hresult
    obtain rfl := (if_pos rfl).symm.trans hencode
    obtain ⟨claims, _, hexp⟩ := hexpires.exact _ hresult
    exact ⟨hlifetime, by omega, hrange.2⟩
  · intro h E jwt
    exact h.expiresExactly jwt leeway nodeId role

/-- The bounds that the time library documents. -/
def utc : Chrono where
  longest := 9223372036854775
  earliest := -8334601228800
  latest := 8210266876799
  earliest_le := by decide
  latest_lt := by decide

/-- A token whose lifetime ends before 1970 is accepted at any time. -/
theorem verifyToken_before_epoch {chrono : Chrono} (hearliest : -2 ^ 63 ≤ chrono.earliest)
    {jwt : Jwt E} {now : Nat} {nodeId role : String} {minutes : Int64} {token : String}
    (htoken : generateToken chrono jwt now nodeId role minutes = some (.ok token))
    (hneg : now + 60 * minutes.toInt < 0) (leeway : Nat) {time : Nat} (htime : time ≤ 2 ^ 63) :
    ∃ claims, verifyToken jwt leeway time token = .ok claims := by
  obtain ⟨_, hrange, hencode⟩ := generateToken_eq_some_iff.mp htoken
  have hexp := toNat_ofInt (now + 60 * minutes.toInt)
  have hvalid : ¬ (UInt64.ofInt (now + 60 * minutes.toInt)).toNat + leeway < time := by omega
  refine ⟨⟨nodeId, role, UInt64.ofInt (now + 60 * minutes.toInt)⟩, ?_⟩
  rw [verifyToken, jwt.decode_encode _ _ hencode]
  exact if_neg hvalid

/-- In 2023 a lifetime that ends in 1966 makes a token that does not expire. -/
theorem not_exactExpiry :
    ¬ ∀ now nodeId role minutes, ExactExpiry utc 60 now nodeId role minutes := by
  intro h
  have hexpires := h 1700000000 "an" "ki" (-30000000) Unit
    (signing ⟨"an", "ki", UInt64.ofInt (-100000000)⟩)
  have htoken : generateToken utc (signing ⟨"an", "ki", UInt64.ofInt (-100000000)⟩) 1700000000
      "an" "ki" (-30000000) = some (.ok "token") :=
    generateToken_eq_some_iff.mpr ⟨by decide, by decide, by decide⟩
  obtain ⟨claims, hverify⟩ := verifyToken_before_epoch (by decide) htoken (by decide) 60
    (by decide : 1700000000 ≤ 2 ^ 63)
  exact hexpires.expires "token" htoken 1700000000 (by decide) claims hverify

end Tokens

/-! ## Messages -/

/-- HMAC-SHA256: the result for a key and a text. -/
structure Mac where
  compute : Bytes → Bytes → Bytes
  length_compute : ∀ key text, (compute key text).length = 32

inductive SecurityError where
  | base64
  | utf8
  deriving Repr, DecidableEq

variable (base64 : Base64.Codec) (mac : Mac)

def encryptMessage (message key : String) : Except SecurityError String :=
  .ok (base64.encode (mac.compute (utf8 key) (utf8 message)))

def decryptMessage (encodedMessage key : String) : Except SecurityError String :=
  match base64.decode encodedMessage with
  | none => .error .base64
  | some decodedBytes =>
    match ofUtf8 (mac.compute (utf8 key) decodedBytes) with
    | none => .error .utf8
    | some decryptedMessage => .ok decryptedMessage

/-- The message comes back when it is decrypted with the key it was encrypted with. -/
def RoundTrips (message key : String) : Prop :=
  ∃ encrypted, encryptMessage base64 mac message key = .ok encrypted ∧
    decryptMessage base64 mac encrypted key = .ok message

theorem ofUtf8_eq_some_iff (b : Bytes) (s : String) : ofUtf8 b = some s ↔ utf8 s = b := by
  constructor
  · exact utf8_of_ofUtf8
  · intro h
    rw [← h, ofUtf8_utf8]

theorem decryptMessage_encrypted (message key : String) :
    decryptMessage base64 mac (base64.encode (mac.compute (utf8 key) (utf8 message))) key =
      match ofUtf8 (mac.compute (utf8 key) (mac.compute (utf8 key) (utf8 message))) with
      | none => .error .utf8
      | some decryptedMessage => .ok decryptedMessage := by
  rw [decryptMessage, base64.decode_encode]

theorem roundTrips_iff_fixed (message key : String) : RoundTrips base64 mac message key ↔
    mac.compute (utf8 key) (mac.compute (utf8 key) (utf8 message)) = utf8 message := by
  simp only [RoundTrips, encryptMessage, Except.ok.injEq, exists_eq_left',
    decryptMessage_encrypted]
  rw [eq_comm (b := utf8 message), ← ofUtf8_eq_some_iff]
  cases ofUtf8 (mac.compute (utf8 key) (mac.compute (utf8 key) (utf8 message))) with
  | none => simp
  | some decrypted => simp

/-- The round trip holds of the messages of 32 bytes that two rounds of the MAC lead back to, and
of no others. -/
theorem roundTrips_iff (message key : String) : RoundTrips base64 mac message key ↔
    (utf8 message).length = 32 ∧
      mac.compute (utf8 key) (mac.compute (utf8 key) (utf8 message)) = utf8 message := by
  rw [roundTrips_iff_fixed]
  constructor
  · intro h
    refine ⟨?_, h⟩
    rw [← h]
    exact mac.length_compute _ _
  · intro h
    exact h.2

def EncryptionRoundTrips : Prop := ∀ message key, RoundTrips base64 mac message key

/-- Whatever the codec and the MAC are, the message of the test in the file does not come back. -/
theorem not_encryptionRoundTrips : ¬ ∃ base64 mac, EncryptionRoundTrips base64 mac := by
  intro h
  rcases h with ⟨base64, mac, h⟩
  have hfixed := (roundTrips_iff_fixed base64 mac _ _).mp
    (h "This is a secret message." "encryption_key")
  have hlength := congrArg List.length hfixed
  rw [mac.length_compute] at hlength
  exact absurd hlength (by decide)

end AnKi.Security
