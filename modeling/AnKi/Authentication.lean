import AnKi.Library.Runs
import Mathlib.Data.List.Basic

/-!
# authentication.rs: issued and renewed tokens

Encoding and decoding belong to the JWT library; a call is given what the library
answers at each of its attempts, the check of the expiry included. A token decodes
only to claims that were encoded in it, and everything else is left to whoever
presents tokens.
-/

namespace AnKi.Authentication
set_option autoImplicit false

structure Claims where
  sub : String
  role : String
  exp : UInt64
  deriving DecidableEq

variable {E : Type}

/-- What the library answers during a call; attempts are numbered by the retries that are left. -/
structure Jwt (E : Type) where
  encode : Claims → Nat → Except E String
  decode : String → Nat → Except E Claims

/-- The loop around `encode` and `decode`: it ends with a success or when no retry is left. -/
def retrying {A : Type} (attempt : Nat → Except E A) : Nat → Except E A
  | 0 => attempt 0
  | retries + 1 =>
    match attempt (retries + 1) with
    | .ok a => .ok a
    | .error _ => retrying attempt retries

def generateToken (nodeId role : String) (expiration : UInt64) (jwt : Jwt E) : Except E String :=
  retrying (jwt.encode ⟨nodeId, role, expiration⟩) 3

def verifyToken (token : String) (jwt : Jwt E) : Except E Claims :=
  retrying (jwt.decode token) 3

/-- The claims that `renew_token` encodes, once. -/
def renewedClaims (token : String) (newExpiration : UInt64) (jwt : Jwt E) : Except E Claims :=
  match verifyToken token jwt with
  | .ok tokenData => .ok { tokenData with exp := newExpiration }
  | .error e => .error e

def renewToken (token : String) (newExpiration : UInt64) (jwt : Jwt E) : Except E String :=
  match renewedClaims token newExpiration jwt with
  | .ok claims => jwt.encode claims 0
  | .error e => .error e

inductive Call (E : Type) where
  | generateToken (nodeId role : String) (expiration : UInt64) (jwt : Jwt E)
  | verifyToken (token : String) (jwt : Jwt E)
  | renewToken (token : String) (newExpiration : UInt64) (jwt : Jwt E)

/-- The token a call returns, with the claims encoded in it. -/
def Call.issues : Call E → String → Claims → Prop
  | .generateToken nodeId role expiration jwt, token, claims =>
    Authentication.generateToken nodeId role expiration jwt = .ok token ∧
      claims = ⟨nodeId, role, expiration⟩
  | .verifyToken _ _, _, _ => False
  | .renewToken old newExpiration jwt, token, claims =>
    Authentication.renewToken old newExpiration jwt = .ok token ∧
      renewedClaims old newExpiration jwt = .ok claims

/-- What `verify_token` accepts in a call, be it on its own or for a renewal. -/
def Call.accepts : Call E → String → Claims → Prop
  | .generateToken _ _ _ _, _, _ => False
  | .verifyToken presented jwt, token, claims
  | .renewToken presented _ jwt, token, claims =>
    presented = token ∧ Authentication.verifyToken presented jwt = .ok claims

/-! ## Runs -/

def Issued (past : List (Call E)) (token : String) (claims : Claims) : Prop :=
  ∃ call ∈ past, call.issues token claims

def Call.jwt : Call E → Jwt E
  | .generateToken _ _ _ jwt | .verifyToken _ jwt | .renewToken _ _ jwt => jwt

def record (past : List (Call E)) (call : Call E) : List (Call E) := past ++ [call]

/-- A string decodes only to claims that were encoded in it before. -/
def Unforged (past : List (Call E)) (call : Call E) : Prop :=
  ∀ token retries claims, call.jwt.decode token retries = .ok claims → Issued past token claims

def UnforgedRun (calls : List (Call E)) : Prop := Runs.Along record Unforged [] calls

/-- The pair was passed to a call of `generate_token`. -/
def PairGiven (past : List (Call E)) (sub role : String) : Prop :=
  ∃ expiration jwt, .generateToken sub role expiration jwt ∈ past

/-- A call of `generate_token` or `renew_token` with this expiration returned the token. -/
def ExpirationGiven (past : List (Call E)) (token : String) (expiration : UInt64) : Prop :=
  (∃ nodeId role jwt, .generateToken nodeId role expiration jwt ∈ past ∧
      generateToken nodeId role expiration jwt = .ok token) ∨
    ∃ old jwt, .renewToken old expiration jwt ∈ past ∧ renewToken old expiration jwt = .ok token

theorem retrying_ok {A : Type} {attempt : Nat → Except E A} {retries : Nat} {a : A}
    (h : retrying attempt retries = .ok a) : ∃ left, attempt left = .ok a := by
  induction retries with
  | zero => exact ⟨0, h⟩
  | succ retries ih =>
    unfold retrying at h
    cases hattempt : attempt (retries + 1) with
    | ok b =>
      rw [hattempt] at h
      exact ⟨retries + 1, hattempt.trans h⟩
    | error e =>
      rw [hattempt] at h
      exact ih h

theorem renewedClaims_ok {old : String} {newExpiration : UInt64} {jwt : Jwt E} {claims : Claims}
    (h : renewedClaims old newExpiration jwt = .ok claims) :
    ∃ tokenData, verifyToken old jwt = .ok tokenData ∧
      claims = { tokenData with exp := newExpiration } := by
  unfold renewedClaims at h
  cases hverify : verifyToken old jwt with
  | ok tokenData =>
    rw [hverify] at h
    exact ⟨tokenData, rfl, (Except.ok.inj h).symm⟩
  | error e =>
    rw [hverify] at h
    cases h

theorem Unforged.accepted {past : List (Call E)} {call : Call E} (h : Unforged past call)
    {token : String} {claims : Claims} (haccepts : call.accepts token claims) :
    Issued past token claims := by
  cases call with
  | generateToken nodeId role expiration jwt => exact haccepts.elim
  | verifyToken presented jwt | renewToken presented newExpiration jwt =>
    obtain ⟨rfl, hverify⟩ := haccepts
    obtain ⟨left, hdecode⟩ := retrying_ok hverify
    exact h _ left claims hdecode

theorem PairGiven.mono {past : List (Call E)} {sub role : String} (h : PairGiven past sub role)
    (call : Call E) : PairGiven (past ++ [call]) sub role := by
  obtain ⟨expiration, jwt, hmem⟩ := h
  exact ⟨expiration, jwt, List.mem_append_left _ hmem⟩

theorem ExpirationGiven.mono {past : List (Call E)} {token : String} {expiration : UInt64}
    (h : ExpirationGiven past token expiration) (call : Call E) :
    ExpirationGiven (past ++ [call]) token expiration := by
  rcases h with ⟨nodeId, role, jwt, hmem, htoken⟩ | ⟨old, jwt, hmem, htoken⟩
  · exact Or.inl ⟨nodeId, role, jwt, List.mem_append_left _ hmem, htoken⟩
  · exact Or.inr ⟨old, jwt, List.mem_append_left _ hmem, htoken⟩

theorem run_record (past calls : List (Call E)) : Runs.run record past calls = past ++ calls := by
  induction calls generalizing past with
  | nil => simp
  | cons call calls ih => simp [record, ih]

theorem UnforgedRun.concat {past : List (Call E)} {call : Call E}
    (h : UnforgedRun (past ++ [call])) : UnforgedRun past ∧ Unforged past call := by
  have hsplit := (Runs.along_append [] past [call]).mp h
  refine ⟨hsplit.1, ?_⟩
  simpa [run_record] using hsplit.2

/-- Every token issued carries a pair that was given, through any number of renewals. -/
theorem Issued.given {past : List (Call E)} (h : UnforgedRun past) {token : String}
    {claims : Claims} (hissued : Issued past token claims) :
    PairGiven past claims.sub claims.role ∧ ExpirationGiven past token claims.exp := by
  induction past using List.reverseRecOn generalizing token claims with
  | nil =>
    obtain ⟨call, hmem, _⟩ := hissued
    simp at hmem
  | append_singleton past call ih =>
    obtain ⟨hpast, hcall⟩ := h.concat
    obtain ⟨other, hmem, hissues⟩ := hissued
    rcases List.mem_append.mp hmem with hearlier | hlast
    · obtain ⟨hpair, hexpiration⟩ := ih hpast ⟨other, hearlier, hissues⟩
      exact ⟨hpair.mono call, hexpiration.mono call⟩
    · obtain rfl := List.mem_singleton.mp hlast
      cases other with
      | generateToken nodeId role expiration jwt =>
        obtain ⟨htoken, rfl⟩ := hissues
        exact ⟨⟨expiration, jwt, hmem⟩, Or.inl ⟨nodeId, role, jwt, hmem, htoken⟩⟩
      | verifyToken presented jwt => exact hissues.elim
      | renewToken old newExpiration jwt =>
        obtain ⟨htoken, hclaims⟩ := hissues
        obtain ⟨tokenData, hverify, rfl⟩ := renewedClaims_ok hclaims
        -- the pair is the one of the token presented, which was issued earlier
        obtain ⟨hpair, _⟩ := ih hpast (hcall.accepted ⟨rfl, hverify⟩)
        exact ⟨hpair.mono _, Or.inr ⟨old, jwt, hmem, htoken⟩⟩

/-- Whatever is presented, a token that is accepted has a subject and a role that were given to
`generate_token`, and the expiration given to the call that returned it. -/
theorem accepted_given {calls past : List (Call E)} {call : Call E} (h : UnforgedRun calls)
    (hpast : past ++ [call] <+: calls) {token : String} {claims : Claims}
    (haccepts : call.accepts token claims) :
    PairGiven past claims.sub claims.role ∧ ExpirationGiven past token claims.exp := by
  have hprefix : UnforgedRun (past ++ [call]) := Runs.Along.take hpast h
  obtain ⟨hrun, hcall⟩ := hprefix.concat
  exact Issued.given hrun (hcall.accepted haccepts)

/-- A library that encodes to this token, and decodes the one it knows. -/
def jwtOf (token : String) (known : Option (String × Claims)) : Jwt Unit where
  encode _ _ := .ok token
  decode presented _ :=
    match known with
    | some (issued, claims) => if presented = issued then .ok claims else .error ()
    | none => .error ()

def renewedOnce : List (Call Unit) :=
  [.generateToken "n" "ki" 10 (jwtOf "a" none),
    .renewToken "a" 20 (jwtOf "b" (some ("a", ⟨"n", "ki", 10⟩))),
    .verifyToken "b" (jwtOf "" (some ("b", ⟨"n", "ki", 20⟩)))]

theorem unforged_jwtOf {past : List (Call Unit)} {call : Call Unit} {encoded token : String}
    {claims : Claims} (hcall : call.jwt = jwtOf encoded (some (token, claims)))
    (h : Issued past token claims) : Unforged past call := by
  intro presented retries decoded hdecode
  simp only [hcall, jwtOf] at hdecode
  split at hdecode
  · rename_i hpresented
    rw [hpresented, ← Except.ok.inj hdecode]
    exact h
  · cases hdecode

theorem accepted_given_renewedOnce :
    PairGiven (renewedOnce.take 2) "n" "ki" ∧ ExpirationGiven (renewedOnce.take 2) "b" 20 := by
  have hfirst : Unforged [] (renewedOnce[0]) := by
    intro presented retries decoded hdecode
    cases hdecode
  have hrun : UnforgedRun renewedOnce := by
    refine ⟨hfirst, unforged_jwtOf rfl ?_, unforged_jwtOf rfl ?_, trivial⟩
    · exact ⟨_, List.mem_cons_self, rfl, rfl⟩
    · exact ⟨_, List.mem_cons_of_mem _ List.mem_cons_self, rfl, rfl⟩
  have hverify : (Call.verifyToken "b" (jwtOf "" (some ("b", ⟨"n", "ki", 20⟩)))).accepts "b"
      ⟨"n", "ki", 20⟩ := ⟨rfl, rfl⟩
  have hprefix : renewedOnce.take 2 ++
      [.verifyToken "b" (jwtOf "" (some ("b", ⟨"n", "ki", 20⟩)))] <+: renewedOnce :=
    List.prefix_refl renewedOnce
  exact accepted_given hrun hprefix hverify

/-! ## Sessions that have lapsed -/

/-- A call and the time it is made at. -/
structure Dated (E : Type) where
  now : Nat
  call : Call E

/-- No token decodes that expired longer ago than the leeway of the library. -/
def Dated.Checked (leeway : Nat) (dated : Dated E) : Prop :=
  ∀ token retries claims, dated.call.jwt.decode token retries = .ok claims →
    dated.now ≤ claims.exp.toNat + leeway

/-- The call gives the pair to `generate_token`. -/
def Call.Gives (sub role : String) (call : Call E) : Prop :=
  ∃ expiration jwt, call = .generateToken sub role expiration jwt

/-- Every token issued for the pair is out of date at this time. -/
def Lapsed (leeway time : Nat) (sub role : String) (past : List (Call E)) : Prop :=
  ∀ token claims, Issued past token claims → claims.sub = sub → claims.role = role →
    claims.exp.toNat + leeway < time

section Lapse
variable {leeway time : Nat} {sub role : String}

theorem Lapsed.not_accepts {past : List (Call E)} (h : Lapsed leeway time sub role past)
    {dated : Dated E} (hunforged : Unforged past dated.call) (hchecked : dated.Checked leeway)
    (hlate : time ≤ dated.now) {token : String} {claims : Claims}
    (haccepts : dated.call.accepts token claims) : ¬ (claims.sub = sub ∧ claims.role = role) := by
  intro hpair
  have hexpired := h token claims (hunforged.accepted haccepts) hpair.1 hpair.2
  have hdecoded : ∃ retries, dated.call.jwt.decode token retries = .ok claims := by
    cases hcall : dated.call with
    | generateToken nodeId role expiration jwt =>
      rw [hcall] at haccepts
      exact haccepts.elim
    | verifyToken presented jwt | renewToken presented newExpiration jwt =>
      rw [hcall] at haccepts
      obtain ⟨rfl, hverify⟩ := haccepts
      exact retrying_ok hverify
  obtain ⟨retries, hdecode⟩ := hdecoded
  have hvalid := hchecked token retries claims hdecode
  omega

/-- Only a pair that is given can get a token: a renewal needs one that is accepted. -/
theorem Lapsed.not_issues {past : List (Call E)} (h : Lapsed leeway time sub role past)
    {dated : Dated E} (hunforged : Unforged past dated.call) (hchecked : dated.Checked leeway)
    (hlate : time ≤ dated.now) (hgives : ¬ dated.call.Gives sub role) {token : String}
    {claims : Claims} (hissues : dated.call.issues token claims) :
    ¬ (claims.sub = sub ∧ claims.role = role) := by
  rintro ⟨hsub, hrole⟩
  cases hcall : dated.call with
  | generateToken nodeId role expiration jwt =>
    rw [hcall] at hissues
    obtain ⟨_, rfl⟩ := hissues
    subst hsub hrole
    exact hgives ⟨expiration, jwt, hcall⟩
  | verifyToken presented jwt =>
    rw [hcall] at hissues
    exact hissues.elim
  | renewToken old newExpiration jwt =>
    rw [hcall] at hissues
    obtain ⟨_, hclaims⟩ := hissues
    obtain ⟨tokenData, hverify, rfl⟩ := renewedClaims_ok hclaims
    -- the token renewed is one of the pair, and it is out of date
    have haccepts : dated.call.accepts old tokenData := by
      rw [hcall]
      exact ⟨rfl, hverify⟩
    exact h.not_accepts hunforged hchecked hlate haccepts ⟨hsub, hrole⟩

theorem Lapsed.concat {past : List (Call E)} (h : Lapsed leeway time sub role past)
    {dated : Dated E} (hunforged : Unforged past dated.call) (hchecked : dated.Checked leeway)
    (hlate : time ≤ dated.now) (hgives : ¬ dated.call.Gives sub role) :
    Lapsed leeway time sub role (past ++ [dated.call]) := by
  intro token claims hissued hsub hrole
  obtain ⟨call, hmem, hissues⟩ := hissued
  rcases List.mem_append.mp hmem with hearlier | hlast
  · exact h token claims ⟨call, hearlier, hissues⟩ hsub hrole
  · obtain rfl := List.mem_singleton.mp hlast
    exact absurd ⟨hsub, hrole⟩ (h.not_issues hunforged hchecked hlate hgives hissues)

/-- Once all tokens of a pair are out of date, no token of it is accepted and none is issued,
whatever is presented, until the pair is given to `generate_token` again. -/
theorem lapsed_session_ended {past later : List (Dated E)}
    (hrun : UnforgedRun ((past ++ later).map Dated.call))
    (hchecked : ∀ dated ∈ later, dated.Checked leeway)
    (hlapsed : Lapsed leeway time sub role (past.map Dated.call))
    (hlate : ∀ dated ∈ later, time ≤ dated.now)
    (hgives : ∀ dated ∈ later, ¬ dated.call.Gives sub role) :
    Lapsed leeway time sub role ((past ++ later).map Dated.call) ∧
      (∀ dated ∈ later, ∀ token claims, dated.call.accepts token claims →
        ¬ (claims.sub = sub ∧ claims.role = role)) ∧
      ∀ dated ∈ later, ∀ token claims, dated.call.issues token claims →
        ¬ (claims.sub = sub ∧ claims.role = role) := by
  induction later using List.reverseRecOn with
  | nil =>
    rw [List.append_nil]
    exact ⟨hlapsed, by simp, by simp⟩
  | append_singleton later dated ih =>
    rw [← List.append_assoc, List.map_append, List.map_singleton] at hrun ⊢
    obtain ⟨hbefore, hunforged⟩ := hrun.concat
    have hlast : dated ∈ later ++ [dated] := by simp
    obtain ⟨hstill, hnone, hnew⟩ := ih hbefore
      (fun other hother => hchecked other (List.mem_append_left _ hother))
      (fun other hother => hlate other (List.mem_append_left _ hother))
      (fun other hother => hgives other (List.mem_append_left _ hother))
    refine ⟨hstill.concat hunforged (hchecked _ hlast) (hlate _ hlast) (hgives _ hlast), ?_, ?_⟩
    · intro other hother
      rcases List.mem_append.mp hother with hearlier | hnow
      · exact hnone other hearlier
      · obtain rfl := List.mem_singleton.mp hnow
        intro token claims haccepts
        exact hstill.not_accepts hunforged (hchecked _ hlast) (hlate _ hlast) haccepts
    · intro other hother
      rcases List.mem_append.mp hother with hearlier | hnow
      · exact hnew other hearlier
      · obtain rfl := List.mem_singleton.mp hnow
        intro token claims hissues
        exact hstill.not_issues hunforged (hchecked _ hlast) (hlate _ hlast) (hgives _ hlast)
          hissues

end Lapse

/-- A token of second 10 is presented for renewal at second 100. -/
theorem lapsed_session_ended_late :
    Lapsed 60 100 "n" "ki" ([Call.generateToken "n" "ki" 10 (jwtOf "a" none),
      .renewToken "a" 500 (jwtOf "b" none)]) := by
  have hunforged : ∀ past (call : Call Unit) token, call.jwt = jwtOf token none →
      Unforged past call := by
    intro past call token hcall presented retries decoded hdecode
    simp [hcall, jwtOf] at hdecode
  have hlapsed : Lapsed 60 100 "n" "ki" [Call.generateToken "n" "ki" 10 (jwtOf "a" none)] := by
    rintro token claims ⟨call, hmem, hissues⟩ - -
    obtain rfl := List.mem_singleton.mp hmem
    obtain ⟨_, rfl⟩ := hissues
    decide
  exact (@lapsed_session_ended Unit 60 100 "n" "ki"
    [⟨0, .generateToken "n" "ki" 10 (jwtOf "a" none)⟩] [⟨100, .renewToken "a" 500 (jwtOf "b" none)⟩]
    ⟨hunforged _ _ "a" rfl, hunforged _ _ "b" rfl, trivial⟩
    (by simp [Dated.Checked, Call.jwt, jwtOf]) hlapsed (by simp) (by simp [Call.Gives])).1

end AnKi.Authentication
