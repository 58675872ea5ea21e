import Dogx.Job.Text

/-!
# The client address of a request

`Resolver.Resolve` walks the forwarding chain from the right and stops at the first address that
is not a trusted proxy, so what a client writes to the left of it has no effect.
-/

namespace Dogx.ClientIp

/-- The functions of `net` and `net/netip` the resolver calls. -/
structure Net (Addr Prefix : Type) where
  splitHostPort : String → Option String
  parseAddr : String → Option Addr
  unmap : Addr → Addr
  string : Addr → String
  contains : Prefix → Addr → Bool

/-- The lines of the two headers are texts as lists of characters. -/
structure Request where
  remoteAddr : String
  forwardedFor : List (List Char)
  realIp : List (List Char)

def join (lines : List (List Char)) : List Char := [','].intercalate lines

def split (text : List Char) : List (List Char) := text.splitOn ','

/-- `strings.Trim(s, "[]")`. -/
def trimBrackets (s : String) : String :=
  let bracket c := c == '[' || c == ']'
  String.ofList ((s.toList.dropWhile bracket).reverse.dropWhile bracket).reverse

variable {Addr Prefix : Type} (net : Net Addr Prefix) (trusted : List Prefix)

def trusts (ip : Addr) : Bool :=
  trusted.isEmpty || trusted.any fun proxies => net.contains proxies ip

/-- The address of the peer, unmapped. -/
def peer (req : Request) : Option Addr :=
  let host := (net.splitHostPort req.remoteAddr).getD req.remoteAddr
  (net.parseAddr (trimBrackets host)).map net.unmap

/-- One item of the chain. -/
def hop (raw : List Char) : Option Addr :=
  (net.parseAddr (Job.Text.trimSpace (String.ofList raw))).map net.unmap

/-- The loop over the chain; the argument is the number of addresses still to look at. -/
def search (chain : List Addr) : ℕ → Option Addr
  | 0 => none
  | i + 1 =>
    match chain[i]? with
    | none => none
    | some ip => if !trusts net trusted ip || i == 0 then some ip else search chain i

def resolve (req : Request) : String :=
  match peer net req with
  | none => ""
  | some peer =>
    if !trusts net trusted peer then net.string peer
    else
      let forwarded := join req.forwardedFor
      if forwarded.isEmpty && decide (1 < req.realIp.length) then net.string peer
      else
        let forwarded := if forwarded.isEmpty then req.realIp.headD [] else forwarded
        if forwarded.isEmpty then net.string peer
        else
          match (split forwarded).mapM (hop net) with
          | none => net.string peer
          | some chain => net.string ((search net trusted chain chain.length).getD peer)

/-! ## The forwarding chain -/

/-- The lines of the forwarding header in use: `X-Forwarded-For` unless it is empty, else a
single `X-Real-IP`. -/
def Request.lines (req : Request) : List (List Char) :=
  if join req.forwardedFor ≠ [] then req.forwardedFor
  else if req.realIp.length ≤ 1 ∧ req.realIp.headD [] ≠ [] then req.realIp
  else []

/-- The addresses of all lines, one line after the other; `none` unless all of them parse. -/
def chain (req : Request) : Option (List Addr) := (req.lines.flatMap split).mapM (hop net)

theorem split_join : ∀ {lines : List (List Char)}, lines ≠ [] →
    split (join lines) = lines.flatMap split
  | [line], _ => by simp [join, List.intercalate_singleton]
  | line :: next :: lines, _ => by
    have ih := split_join (List.cons_ne_nil next lines)
    rw [List.flatMap_cons, ← ih, join, List.intercalate_cons_cons, List.append_assoc]
    exact List.splitOnP_append_cons _ _ (beq_self_eq_true _)

variable {net trusted} {req : Request} {p a : Addr} {l s : List Addr}

theorem resolve_untrusted (hp : peer net req = some p) (ht : trusts net trusted p = false) :
    resolve net trusted req = net.string p := by
  simp [resolve, hp, ht]

theorem resolve_chain (hp : peer net req = some p) (ht : trusts net trusted p = true)
    (hc : chain net req = some l) (hl : l ≠ []) :
    resolve net trusted req = net.string ((search net trusted l l.length).getD p) := by
  rw [chain, Request.lines] at hc
  by_cases hf : join req.forwardedFor = []
  · rw [if_neg fun h => h hf] at hc
    split at hc
    · rename_i hr
      obtain ⟨line, hline⟩ := List.length_eq_one_iff.1
        (Nat.le_antisymm hr.1 (List.length_pos_iff.2 fun h => by simp [h] at hr))
      simp only [hline, List.flatMap_singleton] at hc
      have hne : line ≠ [] := by simpa [hline] using hr.2
      simp [resolve, hp, ht, hf, hline, hc, hne]
    · cases hc
      exact absurd rfl hl
  · have hne : req.forwardedFor ≠ [] := fun h => hf (h ▸ rfl)
    rw [if_pos hf, ← split_join hne] at hc
    simp [resolve, hp, ht, hf, hc]

theorem search_untrusted (ha : trusts net trusted a = false)
    (hs : ∀ b ∈ s, trusts net trusted b = true) : ∀ k ≤ s.length,
    search net trusted (l ++ a :: s) (l.length + 1 + k) = some a
  | 0, _ => by simp [search, ha]
  | k + 1, hk => by
    have hget : (l ++ a :: s)[l.length + 1 + k]? = some s[k] := by
      rw [List.getElem?_append_right (by omega), show l.length + 1 + k - l.length = k + 1 by omega,
        List.getElem?_cons_succ, List.getElem?_eq_getElem]
    rw [← Nat.add_assoc, search]
    simp only [hget, hs _ (List.getElem_mem hk)]
    rw [if_neg (by simp), search_untrusted ha hs k (by omega)]

theorem resolve_rightmost (hp : peer net req = some p) (ht : trusts net trusted p = true)
    (hc : chain net req = some (l ++ a :: s)) (ha : trusts net trusted a = false)
    (hs : ∀ b ∈ s, trusts net trusted b = true) : resolve net trusted req = net.string a := by
  rw [resolve_chain hp ht hc (by simp), List.length_append, List.length_cons, Nat.add_comm s.length,
    ← Nat.add_assoc, search_untrusted ha hs s.length (Nat.le_refl _), Option.getD_some]

/-- Two requests of one peer: an untrusted peer is the answer itself, and behind a trusted one
only the chain from the rightmost untrusted address on counts. -/
theorem resolve_agree (net : Net Addr Prefix) (trusted : List Prefix) (req req' : Request) (p : Addr)
    (hp : peer net req = some p) (hp' : peer net req' = some p) :
    (trusts net trusted p = false →
      resolve net trusted req = net.string p ∧ resolve net trusted req' = net.string p)
    ∧ (trusts net trusted p = true → ∀ l l' a s,
      chain net req = some (l ++ a :: s) → chain net req' = some (l' ++ a :: s) →
      trusts net trusted a = false → (∀ b ∈ s, trusts net trusted b = true) →
      resolve net trusted req = net.string a ∧ resolve net trusted req' = net.string a) :=
  ⟨fun ht => ⟨resolve_untrusted hp ht, resolve_untrusted hp' ht⟩,
    fun ht _ _ _ _ hc hc' ha hs =>
      ⟨resolve_rightmost hp ht hc ha hs, resolve_rightmost hp' ht hc' ha hs⟩⟩

/-- A decimal number up to 255, without a leading zero. -/
def octet (text : List Char) : Option ℕ :=
  let value := text.foldl (fun n c => 10 * n + (c.toNat - '0'.toNat)) 0
  if text ≠ [] ∧ text.all Char.isDigit ∧ (text.length = 1 ∨ text.head? ≠ some '0') ∧ value ≤ 255 then
    some value
  else none

/-- IPv4 addresses as numbers, and prefixes by an address and their number of bits. -/
def ipv4 : Net ℕ (ℕ × ℕ) where
  splitHostPort s := match s.toList.splitOn ':' with
    | [host, _] => some (String.ofList host)
    | _ => none
  parseAddr s := match (s.toList.splitOn '.').mapM octet with
    | some [a, b, c, d] => some (((a * 256 + b) * 256 + c) * 256 + d)
    | _ => none
  unmap := id
  string n := ".".intercalate ([24, 16, 8, 0].map fun shift => toString (n / 2 ^ shift % 256))
  contains proxies n := n / 2 ^ (32 - proxies.2) = proxies.1 / 2 ^ (32 - proxies.2)

/-- Behind a proxy of `10.0.0.0/8`, a client that prepends an address, over two lines, and one that
does not. -/
theorem resolve_agree_spoofed :
    resolve ipv4 [(0x0a000000, 8)] ⟨"10.0.0.1:443",
      ["1.1.1.1, 203.0.113.9".toList, "10.0.0.2".toList], []⟩ = "203.0.113.9"
      ∧ resolve ipv4 [(0x0a000000, 8)] ⟨"10.0.0.1:80", ["203.0.113.9,10.0.0.2".toList], []⟩ =
        "203.0.113.9" := by
  have htext : ipv4.string 0xcb007109 = "203.0.113.9" := by decide +kernel
  rw [← htext]
  exact (resolve_agree ipv4 [(0x0a000000, 8)] _ _ 0x0a000001 (by decide +kernel)
    (by decide +kernel)).2 (by decide +kernel) [0x01010101] [] 0xcb007109 [0x0a000002]
    (by decide +kernel) (by decide +kernel) (by decide +kernel) (by decide +kernel)

end Dogx.ClientIp
