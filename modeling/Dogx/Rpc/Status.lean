import Mathlib

/-!
# Statuses of internal calls

The part of gRPC's status model the services look at, and package `bizerror`, which carries
business errors in it: an extended numeric code with a stable subcode as `ErrorInfo.Reason`.
-/

namespace Dogx.Rpc

/-- `codes.Code`. -/
abbrev Code := UInt32

namespace Code

def ok : Code := 0
def canceled : Code := 1
def deadlineExceeded : Code := 4
def permissionDenied : Code := 7
def resourceExhausted : Code := 8
def internal : Code := 13
def unavailable : Code := 14
def unauthenticated : Code := 16

end Code

/-- A detail of a status; every message but `ErrorInfo` is passed over. -/
inductive Detail where
  | errorInfo (reason : String)
  | other
  deriving DecidableEq

structure Status where
  code : Code
  message : String
  details : List Detail := []
  deriving DecidableEq

/-! ## Business errors -/

def minCode : Code := 100000
def defaultCode : Code := 100001
def maxCode : Code := 0x7fffffff

structure BizError where
  code : Code
  subcode : String
  message : String
  deriving DecidableEq

namespace BizError

/-- `bizerror.New`. -/
def new (subcode message : String) : BizError := { code := defaultCode, subcode, message }

end BizError

def isCode (code : Code) : Bool := minCode ≤ code && code ≤ maxCode

def isLower (c : Char) : Bool := 'a' ≤ c && c ≤ 'z'

/--
The rest of a text that `^[a-z][a-z0-9_]*(?:\.[a-z][a-z0-9_]*)+$` matches: `dotted` once a dot has
been read, `start` where a segment has to begin.
-/
def matchSubcode (dotted start : Bool) : List Char → Bool
  | [] => dotted && !start
  | c :: cs =>
    if start then isLower c && matchSubcode dotted false cs
    else if c = '.' then matchSubcode true true cs
    else (isLower c || ('0' ≤ c && c ≤ '9') || c = '_') && matchSubcode dotted false cs

def isSubcode (subcode : String) : Bool := matchSubcode false true subcode.toList

/-- `subcode.InvalidRequest`. -/
def invalidRequest : String := "common.invalid_request"

/-- The error of a handler: a business error in its chain, or a status of its own. -/
inductive HandlerError where
  | business (e : BizError)
  | status (st : Status)

def internalError : Status := { code := .internal, message := "internal server error" }

/-- `bizerror.UnaryServerInterceptor`. -/
def unaryServerInterceptor {α : Type} : Except HandlerError α → Except Status α
  | .ok resp => .ok resp
  | .error (.status st) => .error st
  | .error (.business e) =>
    if !isCode e.code then .error internalError
    else if !isSubcode e.subcode then .error internalError
    else .error { code := e.code, message := e.message, details := [.errorInfo e.subcode] }

theorem unaryServerInterceptor_ok {α : Type} {r : Except HandlerError α} {a : α} :
    unaryServerInterceptor r = .ok a ↔ r = .ok a := by
  cases r with
  | ok => simp [unaryServerInterceptor]
  | error e =>
    cases e with
    | status => simp [unaryServerInterceptor]
    | business =>
      simp only [unaryServerInterceptor]
      split
      · simp
      split <;> simp

def Detail.subcode : Detail → Option String
  | .errorInfo reason => if isSubcode reason then some reason else none
  | .other => none

/-- `bizerror.SubcodeFromStatus`. -/
def subcodeFromStatus (st : Status) : Option String :=
  if isCode st.code then st.details.findSome? Detail.subcode else none

end Dogx.Rpc
