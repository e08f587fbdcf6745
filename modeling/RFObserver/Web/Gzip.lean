import Mathlib.Data.List.Infix
import Mathlib.Tactic

/-! The middleware that compresses pages and API answers, and what it forwards
of the messages of an answer. -/

namespace RFObserver

namespace SafeGzip

/-- A name and a value; the texts are Latin-1. -/
abbrev Header := List Char × List Char

abbrev Body := List UInt8

def minSize : ℕ := 1024

/-- A chunked body with a declared length up to this is collected. -/
def bufferMax : ℕ := 1024 * 1024

def lower (t : List Char) : List Char := t.map Char.toLower

/-- `_header`: the first of a name. -/
def header (headers : List Header) (name : String) : Option (List Char) :=
  (headers.find? fun h => lower h.1 == name.toList).map Prod.snd

structure Scope where
  http : Bool
  headers : List Header

inductive Message
  | start (status : ℕ) (headers : List Header)
  | body (data : Body) (more : Bool)
  | other (type : String)
  deriving DecidableEq

/-- `length.isdigit()` -/
def isNumber (t : List Char) : Bool := t ≠ [] ∧ t.all Char.isDigit

/-- The Content-Length, or -1. A length is small enough for `int` to read it. -/
def declaredLength (headers : List Header) : ℤ :=
  match header headers "content-length" with
  | some length => if isNumber length then Nat.ofDigitChars 10 length 0 else -1
  | none => -1

/-- The variables of one request: the start message while it is held, the
Content-Length and the collected parts. -/
structure Held where
  start : Option (ℕ × List Header)
  passthrough : Bool
  declared : ℤ
  parts : List Body

def Held.init : Held := ⟨none, false, -1, []⟩

/-- An answer that is not compressed whatever its body is. -/
def unsafeAnswer (status : ℕ) (headers : List Header) : Bool :=
  status ≠ 200 ∨ (header headers "content-encoding").isSome ∨ (header headers "content-disposition").isSome

/-- A header that a compressed answer keeps. -/
def keptHeader (h : Header) : Bool := lower h.1 ≠ "content-length".toList ∧ lower h.1 ≠ "accept-ranges".toList

/-- An ETag made weak. -/
def weaken (h : Header) : Header :=
  if lower h.1 = "etag".toList ∧ ¬ "W/".toList <+: h.2 then (h.1, "W/".toList ++ h.2) else h

def gzipHeaders (headers : List Header) (length : ℕ) : List Header :=
  (headers.filter keptHeader).map weaken ++
    [("content-encoding".toList, "gzip".toList), ("content-length".toList, Nat.toDigits 10 length),
      ("vary".toList, "Accept-Encoding".toList)]

section Send

variable (gzip : Body → Body)

/-- `wrapped`: what one message of the app makes it send, `none` where its
assertion fails. -/
def wrapped (s : Held) : Message → Option (Held × List Message)
  | .start status headers =>
    if unsafeAnswer status headers then some ({ s with passthrough := true }, [.start status headers])
    else some ({ s with start := some (status, headers), declared := declaredLength headers }, [])
  | .body data more =>
    if s.passthrough then some (s, [.body data more])
    else s.start.map fun start =>
      let parts := s.parts ++ [data]
      if more then
        if 0 ≤ s.declared ∧ s.declared ≤ bufferMax then ({ s with parts := parts }, [])
        else ({ s with parts := parts, passthrough := true },
          [.start start.1 start.2, .body parts.flatten true])
      else
        let body := parts.flatten
        if body.length < minSize then
          ({ s with parts := parts, passthrough := true }, [.start start.1 start.2, .body body false])
        else
          ({ s with parts := parts },
            [.start start.1 (gzipHeaders start.2 (gzip body).length), .body (gzip body) false])
  | .other type => some (s, [.other type])

/-- What is sent for the messages of the app. -/
def sendAll : Held → List Message → Option (List Message)
  | _, [] => some []
  | s, m :: ms => (wrapped gzip s m).bind fun r => (sendAll r.1 ms).map fun sent => r.2 ++ sent

/-- The request side, with the messages that the app sends. -/
def call (scope : Scope) (messages : List Message) : Option (List Message) :=
  if scope.http = false then some messages
  else
    let accept := lower ((header scope.headers "accept-encoding").getD [])
    if ¬ "gzip".toList <:+: accept ∨ (header scope.headers "range").isSome then some messages
    else sendAll gzip .init messages

end Send

/-- An answer: a start, parts of the body of which more come, the last part, and
what follows the body. -/
structure Response where
  status : ℕ
  headers : List Header
  parts : List Body
  last : Body
  after : List String
  deriving DecidableEq

namespace Response

def messages (r : Response) : List Message :=
  .start r.status r.headers :: (r.parts.map fun data => Message.body data true) ++ .body r.last false ::
    r.after.map Message.other

def body (r : Response) : Body := r.parts.flatten ++ r.last

/-- The body comes in one message, or its length is declared and small. -/
def bounded (r : Response) : Bool :=
  r.parts = [] ∨ (0 ≤ declaredLength r.headers ∧ declaredLength r.headers ≤ bufferMax)

/-- What the middleware may compress. -/
def compressible (r : Response) : Bool :=
  unsafeAnswer r.status r.headers = false ∧ r.bounded ∧ minSize ≤ r.body.length

/-- The answer with its body in one message. -/
def collected (r : Response) : Response := { r with parts := [], last := r.body }

variable (gzip : Body → Body)

def compressed (r : Response) : Response :=
  { r with headers := gzipHeaders r.headers (gzip r.body).length, parts := [], last := gzip r.body }

/-- What is forwarded of an answer that may be compressed. -/
def forwarded (r : Response) : Response :=
  if r.compressible then r.compressed gzip
  else if unsafeAnswer r.status r.headers = false ∧ r.bounded then r.collected else r

end Response

end SafeGzip

end RFObserver
