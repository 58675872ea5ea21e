import Mathlib

/-!
# Text, identifiers and the libraries around the service

What the service takes from the Go standard library for its checks of text, the identifiers of
`google/uuid`, and the external functions it calls (`Env`). A Lean `String` is always valid UTF-8,
so the `utf8.ValidString` checks of the source have no counterpart.
-/

namespace Dogx.Job

/-- The nanoseconds of a second. Instants are counted in nanoseconds from Go's zero time. -/
def second : ℕ := 1000000000

/-! ## Go strings -/

namespace Text

/-- `unicode.IsSpace`. -/
def isSpace (c : Char) : Bool :=
  let n := c.toNat
  (9 ≤ n && n ≤ 13) || n == 0x20 || n == 0x85 || n == 0xA0 || n == 0x1680 ||
    (0x2000 ≤ n && n ≤ 0x200a) || n == 0x2028 || n == 0x2029 || n == 0x202f || n == 0x205f ||
    n == 0x3000

/-- `unicode.IsControl`. -/
def isControl (c : Char) : Bool := c.toNat < 0x20 || (0x7f ≤ c.toNat && c.toNat < 0xa0)

/-- `strings.TrimSpace`. -/
def trimSpace (s : String) : String :=
  String.ofList ((s.toList.dropWhile isSpace).reverse.dropWhile isSpace).reverse

/-- `strings.ContainsRune(s, 0)`. -/
def containsNul (s : String) : Bool := s.toList.any fun c => c.toNat == 0

/-- `utf8.RuneCountInString`. -/
def runeCount (s : String) : ℕ := s.toList.length

/-- `len(strings.Fields(s))`: how often a field begins. -/
def fieldCount (s : String) : ℕ :=
  (s.toList.foldl (fun (acc : ℕ × Bool) c =>
    if isSpace c then (acc.1, false) else if acc.2 then acc else (acc.1 + 1, true)) (0, false)).1

/-- `strings.HasPrefix`. -/
def startsWith (s p : String) : Bool := p.toList.isPrefixOf s.toList

end Text

/-! ## UUIDs -/

/-- The 16 bytes of a UUID, the first one most significant. -/
abbrev Uuid := BitVec 128

namespace Uuid

def version (u : Uuid) : BitVec 4 := u.extractLsb' 76 4

/-- The top bits of byte 8 are `10`. -/
def isRFC4122 (u : Uuid) : Bool := u.extractLsb' 62 2 == 2#2

/-- A UUIDv4 as executors identify themselves with. -/
def isV4 (u : Uuid) : Bool := u.version == 4#4 && u.isRFC4122

def hexDigit (n : ℕ) : Char := Char.ofNat (if n < 10 then 48 + n else 87 + n)

/-- The 32 lowercase hexadecimal digits. -/
def hex (u : Uuid) : List Char :=
  (List.range 32).map fun i => hexDigit (u.extractLsb' (4 * (31 - i)) 4).toNat

/-- `UUID.String`: 8-4-4-4-12 digits. -/
def text (u : Uuid) : String :=
  let h := u.hex
  String.ofList (h.take 8 ++ '-' :: (h.drop 8).take 4 ++ '-' :: (h.drop 12).take 4 ++
    '-' :: (h.drop 16).take 4 ++ '-' :: h.drop 20)

def hexValue (c : Char) : Option ℕ :=
  let n := c.toNat
  if 48 ≤ n && n ≤ 57 then some (n - 48)
  else if 97 ≤ n && n ≤ 102 then some (n - 87)
  else if 65 ≤ n && n ≤ 70 then some (n - 55)
  else none

/-- `uuid.Parse`, for the 36-character form. -/
def parse (s : String) : Option Uuid :=
  let cs := s.toList
  if cs.length = 36 ∧ cs[8]? = some '-' ∧ cs[13]? = some '-' ∧ cs[18]? = some '-' ∧
      cs[23]? = some '-' then
    let digits := cs.take 8 ++ (cs.drop 9).take 4 ++ (cs.drop 14).take 4 ++ (cs.drop 19).take 4 ++
      cs.drop 24
    (digits.mapM hexValue).map fun ds => BitVec.ofNat 128 (ds.foldl (fun n d => 16 * n + d) 0)
  else none

end Uuid

/-! ## External functions -/

/--
The library functions the service calls and does not contain.

* `cron` — robfig's parser for six fields, giving the schedule's `Next`; the zero time stands for
  no occurrence within its search range
* `splitHostPort`, `parseIP` — of package `net`
* `jsonValid` — `json.Valid`
* `jsonbValid` — whether PostgreSQL can represent a text as `jsonb`
-/
structure Env where
  cron : String → Option (ℕ → ℕ)
  splitHostPort : String → Option (String × String)
  parseIP : String → Bool
  jsonValid : String → Bool
  jsonbValid : String → Bool

/-- `net.JoinHostPort`. -/
def joinHostPort (host port : String) : String :=
  if host.toList.contains ':' then "[" ++ host ++ "]:" ++ port else host ++ ":" ++ port

/-- `strconv.ParseUint(s, 10, 16)` of a text that consists of digits. -/
def parsePort (s : String) : Option ℕ :=
  if s.toList = [] then none
  else
    let n := s.toList.foldl (fun n c => 10 * n + (c.toNat - 48)) 0
    if n < 65536 then some n else none

def validExecutorAddress (env : Env) (address : String) : Bool :=
  if 255 < Text.runeCount address || address.toList.any fun c => Text.isSpace c || Text.isControl c
  then false
  else match env.splitHostPort address with
    | none => false
    | some (host, port) =>
      let cs := host.toList
      if host = "" || cs.any (fun c => "/\\?#@".toList.contains c) || joinHostPort host port ≠ address
      then false
      else
        let ip := cs.takeWhile (· ≠ '%')
        let zone := (cs.dropWhile (· ≠ '%')).tail
        -- `SplitHostPort` checks bracket placement, not the contents of an IPv6 literal
        if cs.contains ':' && (!env.parseIP (String.ofList ip) || (cs.contains '%' && zone = []))
        then false
        else if port.toList.any fun c => c.toNat < 48 || 57 < c.toNat then false
        else match parsePort port with
          | none => false
          | some n => 0 < n

end Dogx.Job
