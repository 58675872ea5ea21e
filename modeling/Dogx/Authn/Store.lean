import Dogx.Authn.Session
import Dogx.Machine.Run

/-!
# The session store

`RedisSessionStore` and `TokenIssuer.Refresh` as one machine over Redis. A call is a `Phase`: where
its code stands, before the command `Phase.cmd` that it sends next, and `Phase.resume` is the code
between the answer and the following command. Every command is atomic, and any other call may send
its commands in between.

A command can fail without effect, and it can take effect and its answer be lost.

Session IDs are newly generated: a `Create` has one that no call has named, and no other call names
it before that `Create` has returned.
-/

namespace Dogx.Authn

open Redis (Space Members Cursor Entry)

variable {ε : Type}

/-! ## Commands -/

inductive Cmd (ε : Type) where
  | get (sid : String)
  | setex (session : Session ε) (seconds : ℕ)
  | del (sids : List String)
  | sadd (user : Int) (sid : String)
  | srem (user : Int) (sid : String)
  | expire (user : Int) (seconds : ℕ)
  | sscan (user : Int) (cursor : Option (Cursor String))
  | delIndex (user : Int)
  | eval (r : Rotation ε) (seconds : ℕ)

inductive Reply (ε : Type) where
  | done
  | value (session : Option (Session ε))
  | scanned (ids : List String) (cursor : Option (Cursor String))
  | script (r : ScriptReply ε)

/-- The keys of the store: the sessions by ID and the indexes by user. -/
structure Keys (ε : Type) where
  now : ℕ
  sessions : Space String (Session ε)
  index : Space Int (Members String)
  /-- Counts additions to sets. -/
  stamp : ℕ

namespace Keys

def deadline (k : Keys ε) (seconds : ℕ) : ℕ := k.now + 1000 * seconds

def tick (k : Keys ε) (d : ℕ) : Keys ε :=
  { k with
    now := k.now + d, sessions := k.sessions.elapse (k.now + d)
    index := k.index.elapse (k.now + d) }

/-- `rotateRefreshTokenScript`. -/
def eval (k : Keys ε) (r : Rotation ε) (seconds : ℕ) : Keys ε × ScriptReply ε :=
  match k.sessions r.sessionId with
  | none => (k, .missing)
  | some e =>
    match e.value.decide k.now r.currentHash with
    | .replay => (k, .stored e.value)
    | .mismatch => ({ k with sessions := k.sessions.del [r.sessionId] }, .mismatch)
    | .rotate =>
      ({ k with
         sessions := k.sessions.setex r.sessionId (e.value.rotated k.now r) (k.deadline seconds) },
       .stored (e.value.rotated k.now r))

/-- One command. A scan answers with the members `ids`, and with the end of its iteration unless
`more`; `none` if it may not. -/
def exec (k : Keys ε) (ids : List String) (more : Bool) : Cmd ε → Option (Keys ε × Reply ε)
  | .get sid => some (k, .value ((k.sessions sid).map Entry.value))
  | .setex session seconds =>
    some ({ k with sessions := k.sessions.setex session.id session (k.deadline seconds) }, .done)
  | .del sids => some ({ k with sessions := k.sessions.del sids }, .done)
  | .sadd user sid =>
    some ({ k with index := k.index.sadd user sid k.stamp, stamp := k.stamp + 1 }, .done)
  | .srem user sid => some ({ k with index := k.index.srem user sid }, .done)
  | .expire user seconds => some ({ k with index := k.index.expire user (k.deadline seconds) }, .done)
  | .sscan user cursor =>
    if Cursor.allows (k.index.members user) cursor ids more then
      some (k, .scanned ids (Cursor.next (k.index.members user) cursor ids more))
    else none
  | .delIndex user => some ({ k with index := k.index.del [user] }, .done)
  | .eval r seconds => some ((k.eval r seconds).1, .script (k.eval r seconds).2)

end Keys

/-! ## Calls -/

inductive Call (ε : Type) where
  | create (session : Session ε) (ttl : Int)
  | rotate (r : Rotation ε)
  | revoke (user : Int) (sid : String)
  | revokeAll (user : Int)
  | refresh (token : String)

inductive Outcome (ε : Type) where
  | created (r : Except Err Unit)
  | rotated (r : Except Err (Session ε))
  | revoked (r : Except Err Unit)
  | revokedAll (r : Except Err Unit)
  | refreshed (r : Except Err Credentials)

/-- Where the code of a call stands. A rotation has the request of the `Refresh` that made it. -/
inductive Phase (ε : Type) where
  | storing (session : Session ε) (seconds : ℕ)
  | indexing (session : Session ε) (seconds : ℕ)
  | extending (session : Session ε) (seconds : ℕ)
  | undoing (session : Session ε) (indexed : Bool) (e : Err)
  | unindexing (session : Session ε) (e : Err)
  | rotateGet (q : Option Request) (r : Rotation ε) (seconds : ℕ)
  | rotateIndex (q : Option Request) (r : Rotation ε) (seconds : ℕ) (user : Int)
  | rotateExtend (q : Option Request) (r : Rotation ε) (seconds : ℕ) (user : Int)
  | rotateEval (q : Option Request) (r : Rotation ε) (seconds : ℕ) (user : Int)
  | rotateDrop (q : Option Request) (sid : String) (user : Int) (e : Err)
  | revokeGet (user : Int) (sid : String)
  | revokeDelete (user : Int) (sid : String)
  | revokeUnindex (user : Int) (sid : String)
  | scanning (user : Int) (cursor : Option (Cursor String))
  | deleting (user : Int) (batch : List String) (rest : List (List String))
      (cursor : Option (Cursor String))
  | dropping (user : Int)
  | refreshGet (sid secret : String)
  | preparing (sid secret : String)
  | opening (sid : String) (encoded : Option ε)
  | returned (outcome : Outcome ε)

namespace Phase

def cmd : Phase ε → Option (Cmd ε)
  | storing session seconds => some (.setex session seconds)
  | indexing session _ => some (.sadd session.userId session.id)
  | extending session seconds => some (.expire session.userId seconds)
  | undoing session _ _ => some (.del [session.id])
  | unindexing session _ => some (.srem session.userId session.id)
  | rotateGet _ r _ => some (.get r.sessionId)
  | rotateIndex _ r _ user => some (.sadd user r.sessionId)
  | rotateExtend _ _ seconds user => some (.expire user seconds)
  | rotateEval _ r seconds _ => some (.eval r seconds)
  | rotateDrop _ sid user _ => some (.srem user sid)
  | revokeGet _ sid => some (.get sid)
  | revokeDelete _ sid => some (.del [sid])
  | revokeUnindex user sid => some (.srem user sid)
  | scanning user cursor => some (.sscan user cursor)
  | deleting _ batch _ _ => some (.del batch)
  | dropping user => some (.delIndex user)
  | refreshGet sid _ => some (.get sid)
  | preparing _ _ | opening _ _ | returned _ => none

/-- `Get`, of what Redis has answered. -/
def loaded (sid : String) : Except Unit (Reply ε) → Except Err (Session ε)
  | .ok (.value none) => .error .sessionNotFound
  | .ok (.value (some s)) =>
    if !validateSession s then .error (.message "decode session: invalid session")
    else if s.id ≠ sid then .error (.message "stored session id does not match its key")
    else .ok s
  | _ => .error (.redis "load session")

/-- The end of `RotateRefreshToken`, for its caller. -/
def afterRotate (q : Option Request) (sid : String) (result : Except Err (Session ε)) : Phase ε :=
  match q, result with
  | none, _ => returned (.rotated result)
  | some _, .ok s => opening sid s.encryptedRefreshResult
  | some _, .error .sessionNotFound | some _, .error .refreshTokenMismatch =>
    returned (.refreshed (.error .invalidRefreshToken))
  | some _, .error e => returned (.refreshed (.error e))

def maxRedisDeleteBatch : ℕ := 100

/-- The batches of `deleteSessionBatch`, without empty IDs. -/
def batches (ids : List String) : List (List String) :=
  let count := (ids.length + maxRedisDeleteBatch - 1) / maxRedisDeleteBatch
  ((List.range count).map fun i =>
    ((ids.drop (i * maxRedisDeleteBatch)).take maxRedisDeleteBatch).filter (· ≠ "")).filter (· ≠ [])

/-- The loop of `RevokeAll`, once a batch is deleted. -/
def afterScan (user : Int) (rest : List (List String)) (cursor : Option (Cursor String)) : Phase ε :=
  match rest with
  | batch :: rest => deleting user batch rest cursor
  | [] =>
    match cursor with
    | none => dropping user
    | some c => scanning user (some c)

/-- `RotateRefreshToken` once it has the session. -/
def afterLoad (q : Option Request) (r : Rotation ε) (seconds : ℕ) :
    Except Err (Session ε) → Phase ε
  | .error e => afterRotate q r.sessionId (.error e)
  | .ok s => rotateIndex q r seconds s.userId

/-- `RotateRefreshToken` once the script has answered. -/
def afterEval (q : Option Request) (r : Rotation ε) (user : Int) : Reply ε → Phase ε
  | .script (.stored s) =>
    if !validateSession s || s.id ≠ r.sessionId then
      afterRotate q r.sessionId (.error (.message "invalid rotated session"))
    else afterRotate q r.sessionId (.ok s)
  | .script .mismatch => rotateDrop q r.sessionId user .refreshTokenMismatch
  | _ => rotateDrop q r.sessionId user .sessionNotFound

/-- `Revoke` once it has looked for the session. -/
def afterCheck (user : Int) (sid : String) : Except Err (Session ε) → Phase ε
  | .error .sessionNotFound => revokeDelete user sid
  | .error e => returned (.revoked (.error e))
  | .ok s =>
    if s.userId ≠ user then returned (.revoked (.error .sessionUserMismatch))
    else revokeDelete user sid

/-- `Refresh` once it has the session. -/
def afterFind (sid secret : String) : Except Err (Session ε) → Phase ε
  | .error .sessionNotFound => returned (.refreshed (.error .invalidRefreshToken))
  | .error e => returned (.refreshed (.error e))
  | .ok _ => preparing sid secret

/-- The code after a command, up to the next one. -/
def resume : Phase ε → Except Unit (Reply ε) → Phase ε
  -- Create
  | storing session seconds, .ok _ => indexing session seconds
  | storing _ _, .error _ => returned (.created (.error (.redis "store session")))
  | indexing session seconds, .ok _ => extending session seconds
  | indexing session _, .error _ => undoing session false (.redis "index user session")
  | extending _ _, .ok _ => returned (.created (.ok ()))
  | extending session _, .error _ => undoing session true (.redis "expire user session index")
  | undoing session true e, _ => unindexing session e
  | undoing _ false e, _ => returned (.created (.error e))
  | unindexing _ e, _ => returned (.created (.error e))
  -- RotateRefreshToken
  | rotateGet q r seconds, answer => afterLoad q r seconds (loaded r.sessionId answer)
  | rotateIndex q r seconds user, .ok _ => rotateExtend q r seconds user
  | rotateIndex q r _ _, .error _ => afterRotate q r.sessionId (.error (.redis "index rotated session"))
  | rotateExtend q r seconds user, .ok _ => rotateEval q r seconds user
  | rotateExtend q r _ _, .error _ =>
    afterRotate q r.sessionId (.error (.redis "extend user session index"))
  | rotateEval q r _ user, .ok reply => afterEval q r user reply
  | rotateEval q r _ _, .error _ => afterRotate q r.sessionId (.error (.redis "rotate refresh token"))
  | rotateDrop q sid _ e, _ => afterRotate q sid (.error e)
  -- Revoke
  | revokeGet user sid, answer => afterCheck user sid (loaded sid answer)
  | revokeDelete user sid, .ok _ => revokeUnindex user sid
  | revokeDelete _ _, .error _ => returned (.revoked (.error (.redis "delete session")))
  | revokeUnindex _ _, .ok _ => returned (.revoked (.ok ()))
  | revokeUnindex _ _, .error _ =>
    returned (.revoked (.error (.redis "remove user session index")))
  -- RevokeAll
  | scanning user _, .ok (.scanned ids cursor) => afterScan user (batches ids) cursor
  | scanning _ _, _ => returned (.revokedAll (.error (.redis "scan user sessions")))
  | deleting user _ rest cursor, .ok _ => afterScan user rest cursor
  | deleting _ _ _ _, .error _ => returned (.revokedAll (.error (.redis "delete user sessions")))
  | dropping _, .ok _ => returned (.revokedAll (.ok ()))
  | dropping _, .error _ => returned (.revokedAll (.error (.redis "delete user session index")))
  -- Refresh
  | refreshGet sid secret, answer => afterFind sid secret (loaded sid answer)
  | preparing sid secret, _ => preparing sid secret
  | opening sid encoded, _ => opening sid encoded
  | returned outcome, _ => returned outcome

end Phase

namespace Call

/-- `RotateRefreshToken` before its first command. -/
def rotateRefreshToken (q : Option Request) (r : Rotation ε) : Phase ε :=
  if Job.Text.trimSpace r.sessionId = "" ∨ r.currentHash = "" ∨ r.nextHash = "" ∨ r.expiresAt = 0 ∨
      r.encryptedResult.isNone then
    .afterRotate q r.sessionId (.error (.message "invalid refresh token rotation"))
  else match ttlSeconds r.ttl with
    | .error e => .afterRotate q r.sessionId (.error e)
    | .ok seconds => .rotateGet q r seconds

/-- A call before its first command. `Get` answers for a blank ID without asking Redis. -/
def start (cfg : Issuer ε) : Call ε → Phase ε
  | create session ttl =>
    if !validateSession session then .returned (.created (.error (.message "invalid session")))
    else match ttlSeconds ttl with
      | .error e => .returned (.created (.error e))
      | .ok seconds => .storing session seconds
  | rotate r => rotateRefreshToken none r
  | revoke user sid =>
    if user ≤ 0 ∨ Job.Text.trimSpace sid = "" then
      .returned (.revoked (.error (.message "invalid session revocation")))
    else .revokeGet user sid
  | revokeAll user =>
    if user ≤ 0 then .returned (.revokedAll (.error (.message "invalid user session revocation")))
    else .scanning user none
  | refresh token =>
    match cfg.parseRefreshToken token with
    | none => .returned (.refreshed (.error .invalidRefreshToken))
    | some (sid, secret) =>
      if Job.Text.trimSpace sid = "" then .returned (.refreshed (.error .invalidRefreshToken))
      else .refreshGet sid secret

def sid? (cfg : Issuer ε) : Call ε → Option String
  | create session _ => some session.id
  | rotate r => some r.sessionId
  | revoke _ sid => some sid
  | revokeAll _ => none
  | refresh token => (cfg.parseRefreshToken token).map Prod.fst

end Call

/-! ## The machine -/

structure Process (ε : Type) where
  call : Call ε
  phase : Phase ε

/-- A rotation that has taken effect, at its time. -/
structure Rotated (ε : Type) where
  rotation : Rotation ε
  time : ℕ
  request : Option Request

structure Store (ε : Type) where
  keys : Keys ε
  calls : ℕ → Option (Process ε)
  next : ℕ
  /-- The session IDs that have been named. -/
  named : List String
  /-- The rotations so far, the newest one first. -/
  rotations : List (Rotated ε)

namespace Store

def init : Store ε where
  keys := { now := 0, sessions := fun _ => none, index := fun _ => none, stamp := 0 }
  calls := fun _ => none
  next := 0
  named := []
  rotations := []

inductive Move (ε : Type) where
  | tick (d : ℕ)
  | spawn (c : Call ε)
  /-- The next command of a call; `lost` has an effect but no answer. -/
  | exec (pid : ℕ) (ids : List String) (more : Bool)
  | lose (pid : ℕ) (ids : List String) (more : Bool)
  | fail (pid : ℕ)
  /-- The roles are loaded, a candidate is generated; or not. -/
  | prepare (pid : ℕ) (r : Except Err Prepared)
  /-- `decryptRefreshResult` reads the clock. -/
  | finish (pid : ℕ) (now : ℕ)

def setPhase (s : Store ε) (pid : ℕ) (p : Process ε) (phase : Phase ε) : Store ε :=
  { s with calls := Function.update s.calls pid (some { p with phase }) }

/-- A `Create` for this session is on its way. -/
def creating (s : Store ε) (sid : String) : Bool :=
  (List.range s.next).any fun pid => (s.calls pid).any fun p =>
    match p.call, p.phase with
    | .create _ _, .returned _ => false
    | .create session _, _ => session.id = sid
    | _, _ => false

/-- Whether the ID of a call is one it can have. -/
def admits (cfg : Issuer ε) (s : Store ε) : Call ε → Bool
  | .create session _ => !s.named.contains session.id
  | c => (c.sid? cfg).all fun sid => !s.creating sid

def spawn (cfg : Issuer ε) (s : Store ε) (c : Call ε) : Option (Store ε) :=
  if s.admits cfg c then
    some { s with
      calls := Function.update s.calls s.next (some { call := c, phase := c.start cfg })
      next := s.next + 1, named := (c.sid? cfg).toList ++ s.named }
  else none

/-- The rotation that the command of a phase makes. -/
def rotation? (k : Keys ε) : Phase ε → Option (Rotated ε)
  | .rotateEval q r _ _ =>
    (k.sessions r.sessionId).bind fun e =>
      if e.value.decide k.now r.currentHash = .rotate then some ⟨r, k.now, q⟩ else none
  | _ => none

/-- The command of the call `pid` takes effect, with its answer. -/
def effect (s : Store ε) (pid : ℕ) (ids : List String) (more : Bool) :
    Option (Store ε × Process ε × Reply ε) := do
  let p ← s.calls pid
  let c ← p.phase.cmd
  let (keys, reply) ← s.keys.exec ids more c
  pure ({ s with keys, rotations := (rotation? s.keys p.phase).toList ++ s.rotations }, p, reply)

def step (cfg : Issuer ε) (s : Store ε) : Move ε → Option (Store ε)
  | .tick d => some { s with keys := s.keys.tick d }
  | .spawn c => s.spawn cfg c
  | .exec pid ids more =>
    (s.effect pid ids more).map fun (s', p, reply) => s'.setPhase pid p (p.phase.resume (.ok reply))
  | .lose pid ids more =>
    (s.effect pid ids more).map fun (s', p, _) => s'.setPhase pid p (p.phase.resume (.error ()))
  | .fail pid => do
    let p ← s.calls pid
    let _ ← p.phase.cmd
    pure (s.setPhase pid p (p.phase.resume (.error ())))
  | .prepare pid r => do
    let p ← s.calls pid
    match p.phase, r with
    | .preparing _ _, .error e => pure (s.setPhase pid p (.returned (.refreshed (.error e))))
    | .preparing sid secret, .ok prepared =>
      pure (s.setPhase pid p (Call.rotateRefreshToken
        (some (cfg.request sid secret prepared)) (cfg.rotation sid secret prepared)))
    | _, _ => none
  | .finish pid now => do
    let p ← s.calls pid
    match p.phase with
    | .opening sid encoded =>
      pure (s.setPhase pid p (.returned (.refreshed (cfg.decryptRefreshResult sid encoded now))))
    | _ => none

end Store

/-- The session store of the processes with this configuration. -/
def store (cfg : Issuer ε) : Machine (Store ε) (Store.Move ε) := ⟨.init, Store.step cfg⟩

/-- The whole of a `Create`, with a lifetime of a minute. -/
def demoCreate (pid : ℕ) (sid : String) : List (Store.Move (String × RefreshResult)) :=
  [.spawn (.create (demoSession sid) (60 * Job.second)), .exec pid [] false, .exec pid [] false,
    .exec pid [] false]

end Dogx.Authn
