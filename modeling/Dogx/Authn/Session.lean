import Dogx.Redis.Keys
import Dogx.Job.Text

/-!
# Sessions and tokens

The session record of package `authn`, the decision of its rotation script, and the parts of
`TokenIssuer` that are around it. Hashing, encryption and the checks of random text are those of
`Issuer`; what is encrypted is opaque (`ε`), and `none` is the empty text of the source.

Instants of the service's processes are nanoseconds from Go's zero time, those of Redis milliseconds.
-/

namespace Dogx.Authn

/-- `Session`. Absent fields of its JSON are empty here. -/
structure Session (ε : Type) where
  id : String
  userId : Int
  refreshTokenHash : String
  createdAt : ℕ
  expiresAt : ℕ
  previousRefreshTokenHash : String := ""
  refreshReplayUntil : Int := 0
  encryptedRefreshResult : Option ε := none
  deriving DecidableEq

inductive Err where
  | message (text : String)
  /-- A command that failed, with what it was for. -/
  | redis (context : String)
  | sessionNotFound | sessionUserMismatch | refreshTokenMismatch | invalidRefreshToken
  deriving DecidableEq

variable {ε : Type}

def validateSession (s : Session ε) : Bool :=
  s.id ≠ "" && 0 < s.userId && s.refreshTokenHash ≠ "" && s.createdAt ≠ 0 && s.expiresAt ≠ 0 &&
    s.createdAt < s.expiresAt

/-- `ttlSeconds`, of a duration in nanoseconds: the seconds, rounded up. `Seconds` adds the rest to
the whole seconds as a `float64`, where a rest below half of the last place is lost. -/
def ttlSeconds (ttl : Int) : Except Err ℕ :=
  if ttl ≤ 0 then .error (.message "session ttl must be positive")
  else
    let seconds := (ttl / 1000000000).toNat
    let rest := (ttl % 1000000000).toNat
    -- the last of 53 places of `seconds`, halved, is `2 ^ (log2 - 53)`
    .ok (if rest * 2 ^ (53 - seconds.log2) < 1000000000 then seconds else seconds + 1)

example : ttlSeconds 17000000000000001 = .ok 17000000 ∧ ttlSeconds 17000000001 = .ok 18 := by decide

/-! ## Rotation -/

/-- The arguments of `RotateRefreshToken`. -/
structure Rotation (ε : Type) where
  sessionId : String
  currentHash : String
  nextHash : String
  expiresAt : ℕ
  ttl : Int
  encryptedResult : Option ε
  deriving DecidableEq

/-- What `rotateRefreshTokenScript` returns. -/
inductive ScriptReply (ε : Type) where
  | missing
  | mismatch
  | stored (session : Session ε)

def replayWindow : ℕ := 5000

/-- `withinWindow` of the script. -/
def Session.withinWindow (s : Session ε) (now : ℕ) : Bool := (now : Int) < s.refreshReplayUntil

/-- The session that the script stores when it rotates. It has decoded and encoded the others of its
fields; `cjson` keeps 14 digits of a number, and a user ID is taken to have no more. -/
def Session.rotated (s : Session ε) (now : ℕ) (r : Rotation ε) : Session ε :=
  { s with
    previousRefreshTokenHash := s.refreshTokenHash, refreshTokenHash := r.nextHash
    expiresAt := r.expiresAt, refreshReplayUntil := now + replayWindow
    encryptedRefreshResult := r.encryptedResult }

/-- The decisions of the script about a session that is there. -/
inductive Decision where
  | replay | mismatch | rotate
  deriving DecidableEq, Repr

def Session.decide (s : Session ε) (now : ℕ) (currentHash : String) : Decision :=
  if s.withinWindow now && s.encryptedRefreshResult.isSome &&
      (s.refreshTokenHash = currentHash || s.previousRefreshTokenHash = currentHash) then .replay
  else if s.refreshTokenHash ≠ currentHash then .mismatch
  else .rotate

/-! ## Tokens -/

structure Credentials where
  accessToken : String
  refreshToken : String
  expiresIn : Int
  deriving DecidableEq

/-- `refreshResult`, what is encrypted with a rotation. -/
structure RefreshResult where
  accessToken : String
  refreshToken : String
  expiresAt : ℕ
  deriving DecidableEq

/--
`TokenIssuer`: its configuration and the libraries it uses.

* `hash` — `hashRefreshSecret`, SHA-256 in hexadecimal, taken to be free of collisions
* `encrypt`, `decrypt` — AES-GCM with the session ID as associated data, and its encoding; what was
  encrypted for a session is decrypted for it
* `validRandomString` — whether a text encodes so many random bytes
-/
structure Issuer (ε : Type) where
  accessExpire : ℕ
  refreshExpire : ℕ
  accessExpire_pos : 0 < accessExpire
  refreshExpire_gt : accessExpire < refreshExpire
  hash : String → String
  hash_injective : Function.Injective hash
  hash_ne : ∀ secret, hash secret ≠ ""
  encrypt : String → String → RefreshResult → ε
  decrypt : String → ε → Option RefreshResult
  decrypt_encrypt : ∀ nonce sessionId result,
    decrypt sessionId (encrypt nonce sessionId result) = some result
  validRandomString : String → ℕ → Bool

/-- `parseRefreshToken`: the session ID and the secret. -/
def Issuer.parseRefreshToken (cfg : Issuer ε) (value : String) : Option (String × String) :=
  if 256 < value.utf8ByteSize then none
  else
    let sid := String.ofList (value.toList.takeWhile (· ≠ '.'))
    match value.toList.dropWhile (· ≠ '.') with
    | [] => none
    | _ :: rest =>
      let secret := String.ofList rest
      if rest.contains '.' then none
      else if !cfg.validRandomString sid 16 || !cfg.validRandomString secret 32 then none
      else some (sid, secret)

/-- What a refresh has prepared before it rotates: a candidate, and the nonce that hides it. -/
structure Prepared where
  accessToken : String
  signed : accessToken ≠ ""
  nextSecret : String
  nonce : String
  now : ℕ

/-- A refresh on its way: the secret it presents, and its candidate. -/
structure Request where
  secret : String
  nextSecret : String
  result : RefreshResult

/-- The candidate of a refresh; its access token expires at a full second. -/
def Issuer.request (cfg : Issuer ε) (sessionId secret : String) (p : Prepared) : Request :=
  { secret, nextSecret := p.nextSecret
    result :=
      { accessToken := p.accessToken, refreshToken := sessionId ++ "." ++ p.nextSecret
        expiresAt := (p.now + cfg.accessExpire) / Job.second * Job.second } }

def Issuer.rotation (cfg : Issuer ε) (sessionId secret : String) (p : Prepared) : Rotation ε :=
  { sessionId, currentHash := cfg.hash secret, nextHash := cfg.hash p.nextSecret
    expiresAt := p.now + cfg.refreshExpire, ttl := cfg.refreshExpire
    encryptedResult := some (cfg.encrypt p.nonce sessionId (cfg.request sessionId secret p).result) }

/-- The whole seconds that an access token has left. -/
def RefreshResult.expiresIn (r : RefreshResult) (now : ℕ) : Int :=
  ((r.expiresAt : Int) - now).tdiv Job.second

/-- `decryptRefreshResult`, with the clock of the process. -/
def Issuer.decryptRefreshResult (cfg : Issuer ε) (sessionId : String) (encoded : Option ε)
    (now : ℕ) : Except Err Credentials :=
  match encoded.bind (cfg.decrypt sessionId) with
  | none => .error (.message "authenticate refresh result failed")
  | some result =>
    if result.accessToken = "" ∨ result.refreshToken = "" ∨ result.expiresIn now ≤ 0 then
      .error (.message "refresh result is invalid or expired")
    else .ok { accessToken := result.accessToken, refreshToken := result.refreshToken
               expiresIn := result.expiresIn now }

/-- An issuer with access tokens of five seconds, whose ciphertexts can be read. -/
def demoIssuer : Issuer (String × RefreshResult) where
  accessExpire := 5 * Job.second
  refreshExpire := 60 * Job.second
  accessExpire_pos := by decide
  refreshExpire_gt := by decide
  hash := fun secret => "#" ++ secret
  hash_injective := fun a b h => by simpa using h
  hash_ne := fun secret => by simp
  encrypt := fun _ sessionId result => (sessionId, result)
  decrypt := fun sessionId e => if e.1 = sessionId then some e.2 else none
  decrypt_encrypt := fun _ _ _ => if_pos rfl
  validRandomString := fun text _ => text ≠ ""

/-- A session of the user 7, as it is issued with the secret `s`. -/
def demoSession (sid : String) : Session (String × RefreshResult) :=
  { id := sid, userId := 7, refreshTokenHash := "#s", createdAt := 1, expiresAt := 60000000001 }

end Dogx.Authn
