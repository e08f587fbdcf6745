import Mathlib.Data.List.DropRight
import RFObserver.Fleet.Captures
import RFObserver.Lib.ReplaceText
import RFObserver.Web.ConfigRoutes

/-! The fleet's sensor records, how an address is written and read, and the poll
that looks for a sensor at each of its addresses. -/

namespace RFObserver

namespace FleetAddress
open Settings

/-- A host name or an IP address. -/
abbrev Address := {a : List Char // a ≠ [] ∧ '/' ∉ a}

abbrev Port := {n : ℕ // 0 < n ∧ n < 65536}

def defaultPort : ℕ := 80

def scheme : List Char := "http://".toList

/-- The host of a URL, an IPv6 address in brackets. -/
def urlHost (address : List Char) : List Char := if ':' ∈ address then '[' :: (address ++ [']']) else address

def urlPort (port : ℕ) : List Char := if port = 80 then [] else ':' :: Nat.toDigits 10 port

/-- `base_url` -/
def baseUrl (address : List Char) (port : ℕ) : List Char := scheme ++ (urlHost address ++ urlPort port)

/-- White space around a number: of ASCII, what C has. -/
def intSpace (c : Char) : Bool := isSpace c && !(decide (28 ≤ c.toNat ∧ c.toNat ≤ 31))

/-- The digits of an `int`, in groups with `_` between them. -/
def digitGroups (t : List Char) : Option ℕ :=
  if (t.splitOn '_').any List.isEmpty then none else FleetCursor.int (t.splitOn '_').flatten

/-- `int` of a text. -/
def int (t : List Char) : Option ℤ :=
  let t := (t.dropWhile intSpace).rdropWhile intSpace
  if t.head? = some '-' then (digitGroups t.tail).map Int.negOfNat
  else if t.head? = some '+' then (digitGroups t.tail).map Int.ofNat
  else (digitGroups t).map Int.ofNat

def dropPrefix (p t : List Char) : List Char := if p <+: t then t.drop p.length else t

/-- What `parse_address` looks at: no white space around it, no scheme, no slash at its end. -/
def bare (text : List Char) : List Char :=
  (dropPrefix "https://".toList (dropPrefix scheme (strip text))).rdropWhile fun c => c == '/'

/-- Before the first `c`, and after it. -/
def partition (c : Char) (t : List Char) : List Char × List Char :=
  (t.takeWhile fun d => d != c, t.drop ((t.takeWhile fun d => d != c).length + 1))

/-- The host and the port, `none` where the port is no number. -/
def hostPort (t : List Char) : Option (List Char × ℤ) :=
  if t.head? = some '[' then
    let host := (partition ']' t.tail).1
    let rest := (partition ']' t.tail).2
    if rest.head? = some ':' then (int rest.tail).map fun port => (host, port) else some (host, defaultPort)
  else if t.count ':' = 1 then (int (partition ':' t).2).map fun port => ((partition ':' t).1, port)
  else some (t, defaultPort)

def validHostPort (e : List Char × ℤ) : Bool := e.1 ≠ [] ∧ 0 < e.2 ∧ e.2 < 65536

/-- `none` where it raises. -/
def parseAddress (text : List Char) : Option (List Char × ℕ) :=
  if bare text = [] ∨ '/' ∈ bare text then none
  else ((hostPort (bare text)).filter validHostPort).map fun e => (e.1, e.2.toNat)

inductive Source
  | mdns
  | manual
  deriving DecidableEq

/-- What the registry keeps of a sensor and its polls read. -/
structure Sensor where
  id : String
  address : Address
  port : Port
  source : Source
  altAddresses : List Address
  deriving DecidableEq

namespace Sensor

def baseUrl (s : Sensor) : List Char := FleetAddress.baseUrl s.address.1 s.port.1

/-- Every address of the sensor. -/
def known (s : Sensor) : List Address := s.address :: s.altAddresses

/-- `use_address` of a sensor that the registry has. -/
def useAddress (s : Sensor) (address : Address) : Sensor :=
  if s.address = address then s
  else { s with address := address, altAddresses := s.known.filter fun a => a ≠ address }

/-- `seen_on_mdns`, of a sensor that the registry may have; `best` is the first
of the addresses. -/
def seenOnMdns (s : Option Sensor) (id : String) (best : Address) (others : List Address) (port : Port) : Sensor :=
  let seen : Sensor := match s with
    | none => ⟨id, best, port, .mdns, []⟩
    | some s => if s.source = .mdns then { s with address := best, port := port } else s
  { seen with altAddresses := (best :: others).filter fun a => a ≠ seen.address }

/-- What `refresh` tries, in order; `rank` is the subnet of this host that an
address is on. -/
def candidates (rank : List Char → ℕ) (s : Sensor) : List Address :=
  match s.source with
  | .mdns => s.known.mergeSort fun a b => decide (rank a.1 ≤ rank b.1)
  | .manual => s.known

/-- `sensor.base_url.replace(sensor.address, addr, 1)` -/
def candidateUrl (s : Sensor) (addr : Address) : List Char := ReplaceText.first s.address.1 addr.1 s.baseUrl

end Sensor

/-- How a request for the identity ends: an answer, an error that `refresh`
catches, or another one. -/
inductive Outcome (Ident : Type*)
  | answered (ident : Ident)
  | failed (error : String)
  | raised

structure Status (Ident : Type*) where
  online : Bool
  identity : Option Ident
  lastSeen : Option ℚ
  error : Option String
  addressUsed : Option Address

/-- A poll that is over: the URLs it asked, the record and the status it left,
and whether it raised. -/
structure Polled (Ident : Type*) where
  asked : List (List Char)
  sensor : Sensor
  status : Status Ident
  raised : Bool

variable {Ident : Type*}

/-- The loop of `refresh` from its `n`th request on. -/
def tryCandidates (s : Sensor) (outcome : ℕ → Outcome Ident) (now : ℚ) (st : Status Ident) :
    ℕ → Option String → List Address → Polled Ident
  | _, lastError, [] => ⟨[], s, { st with online := false, error := lastError }, false⟩
  | n, _, addr :: rest =>
    let base := s.candidateUrl addr
    match outcome n with
    | .answered ident => ⟨[base], s.useAddress addr, ⟨true, some ident, some now, none, some addr⟩, false⟩
    | .failed error =>
      let later := tryCandidates s outcome now st (n + 1) (some error) rest
      { later with asked := base :: later.asked }
    | .raised => ⟨[base], s, st, true⟩

def refresh (rank : List Char → ℕ) (s : Sensor) (outcome : ℕ → Outcome Ident) (now : ℚ)
    (st : Status Ident) : Polled Ident :=
  tryCandidates s outcome now st 0 none (s.candidates rank)

end FleetAddress

end RFObserver
