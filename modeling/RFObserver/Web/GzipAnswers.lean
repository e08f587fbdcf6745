import Mathlib.Data.List.DropRight
import RFObserver.Web.Gzip

/-! Compression does not show in what a client receives. -/

namespace RFObserver

namespace SafeGzip

section Runs

variable (gzip : Body → Body) {s : Held} {status : ℕ} {headers : List Header} {declared : ℤ} {before parts : List Body}

/-- The messages of an answer after its start. -/
def bodyMessages (parts : List Body) (last : Body) (after : List String) : List Message :=
  (parts.map fun data => Message.body data true) ++ .body last false :: after.map Message.other

theorem sendAll_cons {m : Message} {ms sent later : List Message} {s' : Held}
    (step : wrapped gzip s m = some (s', sent)) (rest : sendAll gzip s' ms = some later) :
    sendAll gzip s (m :: ms) = some (sent ++ later) := by
  rw [sendAll, step, Option.bind_some, rest, Option.map_some]

theorem wrapped_passthrough (pass : s.passthrough = true) (data : Body) (more : Bool) :
    wrapped gzip s (.body data more) = some (s, [.body data more]) := by
  rw [wrapped, if_pos pass]

theorem wrapped_collects (small : 0 ≤ declared ∧ declared ≤ bufferMax) (data : Body) :
    wrapped gzip ⟨some (status, headers), false, declared, before⟩ (.body data true) =
      some (⟨some (status, headers), false, declared, before ++ [data]⟩, []) := by
  simp only [wrapped, Bool.false_eq_true, if_false, Option.map_some, if_true, small, and_self]

theorem wrapped_streams (open_ : ¬ (0 ≤ declared ∧ declared ≤ bufferMax)) (status : ℕ) (headers : List Header)
    (data : Body) :
    wrapped gzip ⟨some (status, headers), false, declared, []⟩ (.body data true) =
      some (⟨some (status, headers), true, declared, [data]⟩, [.start status headers, .body data true]) := by
  simp only [wrapped, Bool.false_eq_true, if_false, Option.map_some, if_true, open_, List.nil_append,
    List.flatten_singleton]

/-- What is sent when the body is whole. -/
def whole (status : ℕ) (headers : List Header) (body : Body) : List Message :=
  if body.length < minSize then [.start status headers, .body body false]
  else [.start status (gzipHeaders headers (gzip body).length), .body (gzip body) false]

theorem wrapped_last (status : ℕ) (headers : List Header) (declared : ℤ) (before : List Body) (last : Body) :
    ∃ s', wrapped gzip ⟨some (status, headers), false, declared, before⟩ (.body last false) =
      some (s', whole gzip status headers (before.flatten ++ last)) := by
  have total : (before ++ [last]).flatten = before.flatten ++ last := by
    rw [List.flatten_append, List.flatten_singleton]
  simp only [wrapped, Bool.false_eq_true, if_false, Option.map_some, total, whole]
  split_ifs
  · exact ⟨_, rfl⟩
  · exact ⟨_, rfl⟩

theorem sendAll_others (s : Held) (after : List String) :
    sendAll gzip s (after.map Message.other) = some (after.map Message.other) := by
  induction after with
  | nil => rfl
  | cons type after ih =>
    have step : wrapped gzip s (.other type) = some (s, [.other type]) := rfl
    exact sendAll_cons gzip step ih

theorem sendAll_passthrough (pass : s.passthrough = true) (parts : List Body) (last : Body) (after : List String) :
    sendAll gzip s (bodyMessages parts last after) = some (bodyMessages parts last after) := by
  induction parts with
  | nil =>
    have sent := sendAll_cons gzip (wrapped_passthrough gzip pass last false) (sendAll_others gzip s after)
    exact sent
  | cons data parts ih =>
    have sent := sendAll_cons gzip (wrapped_passthrough gzip pass data true) ih
    exact sent

theorem sendAll_collects (small : parts = [] ∨ 0 ≤ declared ∧ declared ≤ bufferMax) (status : ℕ)
    (headers : List Header) (before : List Body) (last : Body) (after : List String) :
    sendAll gzip ⟨some (status, headers), false, declared, before⟩ (bodyMessages parts last after) =
      some (whole gzip status headers ((before ++ parts).flatten ++ last) ++ after.map Message.other) := by
  induction parts generalizing before with
  | nil =>
    obtain ⟨s', step⟩ := wrapped_last gzip status headers declared before last
    rw [List.append_nil]
    exact sendAll_cons gzip step (sendAll_others gzip s' after)
  | cons data parts ih =>
    have bounded := small.resolve_left (List.cons_ne_nil data parts)
    have later := ih (Or.inr bounded) (before ++ [data])
    rw [List.append_assoc, List.singleton_append] at later
    have sent := sendAll_cons gzip (wrapped_collects gzip bounded data) later
    exact sent

theorem messages_eq (r : Response) :
    r.messages = .start r.status r.headers :: bodyMessages r.parts r.last r.after := rfl

theorem forwarded_untouched {r : Response} (safe : unsafeAnswer r.status r.headers = true) : r.forwarded gzip = r := by
  simp only [Response.forwarded, Response.compressible, safe, Bool.true_eq_false, false_and, decide_false,
    Bool.false_eq_true, if_false]

theorem forwarded_open {r : Response} (open_ : r.bounded = false) : r.forwarded gzip = r := by
  simp only [Response.forwarded, Response.compressible, open_, Bool.false_eq_true, false_and, and_false, decide_false,
    if_false]

theorem forwarded_bounded {r : Response} (safe : unsafeAnswer r.status r.headers = false) (bounded : r.bounded = true) :
    (r.forwarded gzip).messages = whole gzip r.status r.headers r.body ++ r.after.map Message.other := by
  rw [Response.forwarded, Response.compressible, whole]
  simp only [safe, bounded, true_and, decide_eq_true_eq, and_self, if_true]
  by_cases large : minSize ≤ r.body.length
  · rw [if_pos large, if_neg (Nat.not_lt.mpr large)]
    rfl
  · rw [if_neg large, if_pos (Nat.not_le.mp large)]
    rfl

/-- What is sent of an answer. -/
theorem sendAll_messages (r : Response) : sendAll gzip .init r.messages = some (r.forwarded gzip).messages := by
  by_cases safe : unsafeAnswer r.status r.headers = true
  · have step : wrapped gzip .init (.start r.status r.headers) =
        some ({ Held.init with passthrough := true }, [.start r.status r.headers]) := by
      rw [wrapped, if_pos safe]
    have sent := sendAll_cons gzip step (sendAll_passthrough gzip rfl r.parts r.last r.after)
    rw [forwarded_untouched gzip safe]
    exact sent
  · have held : wrapped gzip .init (.start r.status r.headers) =
        some (⟨some (r.status, r.headers), false, declaredLength r.headers, []⟩, []) := by
      rw [wrapped, if_neg safe]
      rfl
    rw [Bool.not_eq_true] at safe
    by_cases bounded : r.bounded = true
    · have sent := sendAll_cons gzip held
        (sendAll_collects gzip (of_decide_eq_true bounded) r.status r.headers [] r.last r.after)
      rw [forwarded_bounded gzip safe bounded]
      exact sent
    · obtain ⟨several, open_⟩ := not_or.mp (mt decide_eq_true bounded)
      rw [Bool.not_eq_true] at bounded
      obtain ⟨data, rest, parts⟩ := List.exists_cons_of_ne_nil several
      have later := sendAll_cons gzip (wrapped_streams gzip open_ r.status r.headers data)
        (sendAll_passthrough gzip rfl rest r.last r.after)
      have sent := sendAll_cons gzip held later
      rw [forwarded_open gzip bounded, messages_eq, parts]
      exact sent

end Runs

/-! What a client accepts, and what it receives. -/

/-- White space between the items of a header. -/
def ows (c : Char) : Bool := c == ' ' || c == '\t'

def trimmed (t : List Char) : List Char := (t.dropWhile ows).rdropWhile ows

/-- A weight of zero. -/
def refusal (param : List Char) : Bool :=
  ["q=0", "q=0.", "q=0.0", "q=0.00", "q=0.000"].any fun t => t.toList == lower (trimmed param)

/-- A coding of an Accept-Encoding, and whether it is accepted. -/
def coding (item : List Char) : List Char × Bool :=
  (lower (trimmed ((item.splitOn ';').headD [])), !(item.splitOn ';').tail.any refusal)

def codings (headers : List Header) : List (List Char × Bool) :=
  (headers.filter fun h => lower h.1 == "accept-encoding".toList).flatMap fun h => (h.2.splitOn ',').map coding

def gzipCodings (headers : List Header) : List (List Char × Bool) :=
  (codings headers).filter fun c => c.1 == "gzip".toList || c.1 == "x-gzip".toList

/-- Whether the Accept-Encoding accepts gzip: as a coding, or else as `*`. -/
def acceptsGzip (headers : List Header) : Bool :=
  if gzipCodings headers = [] then (codings headers).any fun c => c.1 == "*".toList && c.2
  else (gzipCodings headers).any Prod.snd

/-- A request whose answers `call` looks at. -/
def Scope.wraps (scope : Scope) : Bool :=
  scope.http = true ∧ "gzip".toList <:+: lower ((header scope.headers "accept-encoding").getD []) ∧
    (header scope.headers "range").isSome = false

theorem call_eq (gzip : Body → Body) (scope : Scope) (r : Response) :
    call gzip scope r.messages = some (if scope.wraps then r.forwarded gzip else r).messages := by
  by_cases plain : scope.http = false
  · have unwrapped : scope.wraps = false := by
      simp only [Scope.wraps, plain, Bool.false_eq_true, false_and, decide_false]
    rw [call, if_pos plain, unwrapped]
    rfl
  · rw [call, if_neg plain]
    dsimp only
    by_cases skipped : ¬ "gzip".toList <:+: lower ((header scope.headers "accept-encoding").getD []) ∨
        (header scope.headers "range").isSome = true
    · have unwrapped : scope.wraps = false := by
        refine decide_eq_false fun holds => ?_
        obtain ⟨-, mentioned, unranged⟩ := holds
        obtain unmentioned | ranged := skipped
        · exact unmentioned mentioned
        · exact absurd ranged (by rw [unranged]; exact Bool.false_ne_true)
      rw [if_pos skipped, unwrapped]
      rfl
    · obtain ⟨mentioned, unranged⟩ := not_or.mp skipped
      have wrapped : scope.wraps = true :=
        decide_eq_true ⟨Bool.not_eq_false _ |>.mp plain, not_not.mp mentioned, Bool.not_eq_true _ |>.mp unranged⟩
      rw [if_neg skipped, wrapped, sendAll_messages]
      rfl

namespace Response

def others (headers : List Header) : List Header :=
  headers.filter fun h => lower h.1 ≠ "content-length".toList ∧ lower h.1 ≠ "accept-ranges".toList ∧
    lower h.1 ≠ "etag".toList ∧ lower h.1 ≠ "content-encoding".toList ∧ lower h.1 ≠ "vary".toList

def etags (headers : List Header) : List Header := headers.filter fun h => lower h.1 = "etag".toList

/-- Every Content-Length is the length of the body. -/
def LengthRight (r : Response) : Prop :=
  ∀ h ∈ r.headers, lower h.1 = "content-length".toList → isNumber h.2 = true ∧ Nat.ofDigitChars 10 h.2 0 = r.body.length

/-- The body as the client reads it. -/
def decoded (gunzip : Body → Body) (r : Response) : Body :=
  if (header r.headers "content-encoding").map lower = some "gzip".toList then gunzip r.body else r.body

/-- An answer that must not change. -/
def Fixed (scope : Scope) (r : Response) : Prop :=
  (header scope.headers "range").isSome ∨ (header r.headers "content-disposition").isSome ∨
    (header r.headers "content-encoding").isSome ∨ r.status ≠ 200 ∨ r.body.length < minSize

end Response

/-- What an answer becomes on its way to the client. -/
structure Unnoticed (gunzip : Body → Body) (scope : Scope) (r sent : Response) : Prop where
  status : sent.status = r.status
  body : sent.decoded gunzip = r.decoded gunzip
  after : sent.after = r.after
  fixed : r.Fixed scope → sent.headers = r.headers ∧ sent.body = r.body
  others : Response.others sent.headers = Response.others r.headers
  etags : Response.etags sent.headers =
    if sent.headers = r.headers then Response.etags r.headers else (Response.etags r.headers).map weaken
  length : r.LengthRight → sent.LengthRight
  newLength : sent.headers ≠ r.headers →
    header sent.headers "content-length" = some (Nat.toDigits 10 sent.body.length) ∧ sent.LengthRight
  refused : acceptsGzip scope.headers = false → sent.headers = r.headers ∧ sent.body = r.body

/-- The client receives one answer that it cannot tell from the app's. -/
def Invisible (gzip gunzip : Body → Body) (scope : Scope) (r : Response) : Prop :=
  ∃ sent : Response, call gzip scope r.messages = some sent.messages ∧ Unnoticed gunzip scope r sent

section Headers

variable {headers : List Header} {name : String}

theorem header_eq_none : header headers name = none ↔ ∀ h ∈ headers, lower h.1 ≠ name.toList := by
  rw [header, Option.map_eq_none_iff, List.find?_eq_none]
  simp only [beq_iff_eq, ne_eq]

theorem header_append {l : List Header} (absent : header headers name = none) :
    header (headers ++ l) name = header l name := by
  rw [header, Option.map_eq_none_iff] at absent
  rw [header, List.find?_append, absent, Option.none_or]
  rfl

theorem weaken_fst (h : Header) : (weaken h).1 = h.1 := by
  rw [weaken]
  split_ifs
  · rfl
  · rfl

theorem weaken_other {h : Header} (other : lower h.1 ≠ "etag".toList) : weaken h = h := by
  rw [weaken, if_neg]
  exact fun tag => other tag.1

/-- The headers of a compressed answer that the app gave it. -/
theorem mem_weakened {h : Header} (member : h ∈ (headers.filter keptHeader).map weaken) :
    ∃ old ∈ headers, keptHeader old = true ∧ h.1 = old.1 := by
  obtain ⟨old, kept, rfl⟩ := List.mem_map.mp member
  obtain ⟨listed, kept⟩ := List.mem_filter.mp kept
  exact ⟨old, listed, kept, weaken_fst old⟩

theorem header_encoding {length : ℕ} (plain : header headers "content-encoding" = none) :
    header (gzipHeaders headers length) "content-encoding" = some "gzip".toList := by
  have absent : header ((headers.filter keptHeader).map weaken) "content-encoding" = none := by
    refine header_eq_none.mpr fun h member => ?_
    obtain ⟨old, listed, -, name⟩ := mem_weakened member
    rw [name]
    exact header_eq_none.mp plain old listed
  rw [gzipHeaders, header_append absent]
  rfl

theorem header_length (length : ℕ) :
    header (gzipHeaders headers length) "content-length" = some (Nat.toDigits 10 length) := by
  have absent : header ((headers.filter keptHeader).map weaken) "content-length" = none := by
    refine header_eq_none.mpr fun h member => ?_
    obtain ⟨old, -, kept, name⟩ := mem_weakened member
    rw [name]
    exact (of_decide_eq_true kept).1
  rw [gzipHeaders, header_append absent]
  rfl

/-- Headers chosen by their names are made weak where they are etags. -/
theorem filter_weakened {p : Header → Bool} (byName : ∀ h : Header, p (weaken h) = p h)
    (kept : ∀ h : Header, p h = true → keptHeader h = true) :
    ((headers.filter keptHeader).map weaken).filter p = (headers.filter p).map weaken := by
  have same : (p ∘ weaken : Header → Bool) = p := funext byName
  rw [List.filter_map, same, List.filter_filter]
  congr 1
  refine List.filter_congr fun h _ => ?_
  by_cases chosen : p h = true
  · rw [chosen, kept h chosen]
    rfl
  · rw [Bool.not_eq_true] at chosen
    rw [chosen, Bool.false_and]

theorem others_gzipHeaders (headers : List Header) (length : ℕ) :
    Response.others (gzipHeaders headers length) = Response.others headers := by
  have weakened : Response.others ((headers.filter keptHeader).map weaken) = (Response.others headers).map weaken := by
    refine filter_weakened (fun h => ?_) fun h other => ?_
    · rw [weaken_fst]
    · have names := of_decide_eq_true other
      exact decide_eq_true ⟨names.1, names.2.1⟩
  have plain : (Response.others headers).map weaken = Response.others headers := by
    refine (List.map_congr_left fun h member => ?_).trans (List.map_id _)
    exact weaken_other (of_decide_eq_true (List.mem_filter.mp member).2).2.2.1
  rw [plain] at weakened
  rw [gzipHeaders, Response.others, List.filter_append]
  exact (congrArg (· ++ _) weakened).trans (List.append_nil _)

theorem etags_gzipHeaders (headers : List Header) (length : ℕ) :
    Response.etags (gzipHeaders headers length) = (Response.etags headers).map weaken := by
  have weakened : Response.etags ((headers.filter keptHeader).map weaken) = (Response.etags headers).map weaken := by
    refine filter_weakened (fun h => ?_) fun h tag => ?_
    · rw [weaken_fst]
    · rw [keptHeader, of_decide_eq_true tag]
      decide
  rw [gzipHeaders, Response.etags, List.filter_append]
  exact (congrArg (· ++ _) weakened).trans (List.append_nil _)

end Headers

section Answers

variable {gzip gunzip : Body → Body} {scope : Scope} {r sent : Response}

theorem unnoticed_of_same (status : sent.status = r.status) (headers : sent.headers = r.headers)
    (body : sent.body = r.body) (after : sent.after = r.after) : Unnoticed gunzip scope r sent where
  status := status
  body := by rw [Response.decoded, Response.decoded, headers, body]
  after := after
  fixed _ := ⟨headers, body⟩
  others := by rw [headers]
  etags := by rw [if_pos headers, headers]
  length right := by
    unfold Response.LengthRight
    rw [headers, body]
    exact right
  newLength other := absurd headers other
  refused _ := ⟨headers, body⟩

theorem compressed_body (gzip : Body → Body) (r : Response) : (r.compressed gzip).body = gzip r.body := by
  rw [Response.compressed, Response.body, List.flatten_nil, List.nil_append]

/-- An answer that may be compressed is not encoded. -/
theorem unencoded (may : r.compressible = true) : header r.headers "content-encoding" = none := by
  obtain ⟨safe, -⟩ := of_decide_eq_true may
  have plain := of_decide_eq_false safe
  simp only [not_or, Bool.not_eq_true, Option.isSome_eq_false_iff, Option.isNone_iff_eq_none] at plain
  exact plain.2.1

theorem compressed_headers (may : r.compressible = true) : (r.compressed gzip).headers ≠ r.headers := by
  intro same
  have added : header (r.compressed gzip).headers "content-encoding" = some "gzip".toList :=
    header_encoding (unencoded may)
  rw [same, unencoded may] at added
  nomatch added

theorem compressed_lengthRight (gzip : Body → Body) (r : Response) : (r.compressed gzip).LengthRight := by
  intro h member name
  rw [compressed_body]
  obtain old | new := List.mem_append.mp member
  · obtain ⟨before, -, kept, same⟩ := mem_weakened old
    rw [same] at name
    exact absurd name (of_decide_eq_true kept).1
  · simp only [List.mem_cons, List.not_mem_nil, or_false] at new
    obtain rfl | rfl | rfl := new
    · exact absurd name (by decide)
    · have digits : (Nat.toDigits 10 (gzip r.body).length).all Char.isDigit = true :=
        List.all_eq_true.mpr fun c digit => Nat.isDigit_of_mem_toDigits (by decide) (by decide) digit
      exact ⟨decide_eq_true ⟨Nat.toDigits_ne_nil, digits⟩, Nat.ofDigitChars_ten_toDigits⟩
    · exact absurd name (by decide)

theorem unnoticed_compressed (undoes : ∀ b, gunzip (gzip b) = b) (may : r.compressible = true)
    (unranged : (header scope.headers "range").isSome = false) (accepted : acceptsGzip scope.headers = true) :
    Unnoticed gunzip scope r (r.compressed gzip) where
  status := rfl
  body := by
    have added : header (r.compressed gzip).headers "content-encoding" = some "gzip".toList :=
      header_encoding (unencoded may)
    rw [Response.decoded, added, if_pos (by decide), Response.decoded, unencoded may, if_neg (by decide),
      compressed_body, undoes]
  after := rfl
  fixed kept := by
    obtain ⟨safe, -, large⟩ := of_decide_eq_true may
    have plain := of_decide_eq_false safe
    simp only [not_or, Bool.not_eq_true] at plain
    exfalso
    obtain ranged | named | encoded | status | small := kept
    · rw [unranged] at ranged
      exact Bool.false_ne_true ranged
    · rw [plain.2.2] at named
      exact Bool.false_ne_true named
    · rw [plain.2.1] at encoded
      exact Bool.false_ne_true encoded
    · exact plain.1 status
    · omega
  others := others_gzipHeaders r.headers _
  etags := by
    rw [if_neg (compressed_headers may)]
    exact etags_gzipHeaders r.headers _
  length _ := compressed_lengthRight gzip r
  newLength _ := by
    rw [compressed_body]
    exact ⟨header_length _, compressed_lengthRight gzip r⟩
  refused unaccepted := absurd accepted (by rw [unaccepted]; exact Bool.false_ne_true)

theorem unnoticed_uncompressed (may : r.compressible = false) : Unnoticed gunzip scope r (r.forwarded gzip) := by
  have plain : ¬ r.compressible = true := by rw [may]; exact Bool.false_ne_true
  rw [Response.forwarded, if_neg plain]
  split_ifs
  · have body : r.collected.body = r.body := by
      rw [Response.collected, Response.body, List.flatten_nil, List.nil_append]
    exact unnoticed_of_same rfl rfl body rfl
  · exact unnoticed_of_same rfl rfl rfl rfl

theorem invisible_of_accepted (undoes : ∀ b, gunzip (gzip b) = b)
    (accepted : scope.wraps = true → r.compressible = true → acceptsGzip scope.headers = true) :
    Invisible gzip gunzip scope r := by
  refine ⟨_, call_eq gzip scope r, ?_⟩
  by_cases wraps : scope.wraps = true
  · rw [if_pos wraps]
    by_cases may : r.compressible = true
    · have unranged := (of_decide_eq_true wraps).2.2
      have compressed := unnoticed_compressed undoes may unranged (accepted wraps may)
      rw [Response.forwarded, if_pos may]
      exact compressed
    · exact unnoticed_uncompressed (Bool.not_eq_true _ |>.mp may)
  · rw [if_neg wraps]
    exact unnoticed_of_same rfl rfl rfl rfl

/-- The start of what is sent tells its headers. -/
theorem headers_of_messages {q : Response} (same : sent.messages = q.messages) : sent.headers = q.headers := by
  rw [messages_eq, messages_eq] at same
  injection (List.cons.inj same).1

/-- A client that does not accept gzip would receive other headers. -/
theorem accepted_of_invisible (seen : Invisible gzip gunzip scope r) (wraps : scope.wraps = true)
    (may : r.compressible = true) : acceptsGzip scope.headers = true := by
  obtain ⟨sent, called, unnoticed⟩ := seen
  by_contra unaccepted
  rw [Bool.not_eq_true] at unaccepted
  have kept := (unnoticed.refused unaccepted).1
  rw [call_eq, if_pos wraps, Response.forwarded, if_pos may] at called
  have same := headers_of_messages (Option.some.inj called)
  exact compressed_headers may (same.trans kept)

/-- Compression does not show exactly where an answer that is compressed goes to
a client that accepts gzip. -/
theorem invisible_iff (undoes : ∀ b, gunzip (gzip b) = b) (scope : Scope) (r : Response) :
    Invisible gzip gunzip scope r ↔
      (scope.wraps = true → r.compressible = true → acceptsGzip scope.headers = true) :=
  ⟨accepted_of_invisible, invisible_of_accepted undoes⟩

end Answers

/-- A page of 1024 zeros, what gzip makes of it, and a client that refuses gzip. -/
def zeros : Response := ⟨200, [("content-type".toList, "application/json".toList)], [], List.replicate 1024 0, []⟩

def gzippedZeros : Body :=
  [31, 139, 8, 0, 0, 0, 0, 0, 0, 3, 99, 96, 24, 5, 163, 96, 20, 140, 84, 0, 0, 46, 175, 181, 239, 0, 4, 0, 0]

def gzipZeros (b : Body) : Body := if b = zeros.last then gzippedZeros else 0 :: b

def gunzipZeros (b : Body) : Body := if b = gzippedZeros then zeros.last else b.tail

def refusing : Scope := ⟨true, [("accept-encoding".toList, "gzip;q=0, identity".toList)]⟩

def accepting : Scope := ⟨true, [("accept-encoding".toList, "gzip, deflate, br".toList)]⟩

theorem gunzipZeros_gzipZeros (b : Body) : gunzipZeros (gzipZeros b) = b := by
  rw [gzipZeros, gunzipZeros]
  by_cases here : b = zeros.last
  · rw [if_pos here, if_pos rfl, here]
  · have other : (0 :: b : Body) ≠ gzippedZeros := by
      intro same
      exact absurd (List.cons.inj same).1 (by decide)
    rw [if_neg here, if_neg other, List.tail_cons]

theorem compressible_zeros : zeros.compressible = true := by
  have long : zeros.body.length = 1024 := by
    rw [Response.body, zeros, List.flatten_nil, List.nil_append, List.length_replicate]
  exact decide_eq_true ⟨by decide, by decide, long.ge⟩

theorem invisible_iff_accepting : Invisible gzipZeros gunzipZeros accepting zeros :=
  (invisible_iff gunzipZeros_gzipZeros accepting zeros).mpr fun _ _ => by decide

/-- A client that names gzip to refuse it is sent gzip. -/
theorem visible_refusing : ¬ Invisible gzipZeros gunzipZeros refusing zeros := by
  intro seen
  have accepted := accepted_of_invisible seen (by decide) compressible_zeros
  exact absurd accepted (by decide)

end SafeGzip

end RFObserver
