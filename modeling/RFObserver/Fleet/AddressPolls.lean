import RFObserver.Fleet.AddressUrls

/-! The polls of a sensor that has several addresses. -/

namespace RFObserver

namespace FleetAddress

variable {Ident : Type*} {s : Sensor} {a addr : Address} {outcome : ℕ → Outcome Ident} {now : ℚ} {st : Status Ident}
  {rank : List Char → ℕ}

def Outcome.isFailed : Outcome Ident → Bool
  | .failed _ => true
  | _ => false

/-- The candidates that a poll gets to, from its `n`th request on: each until one does not fail. -/
def attempts (outcome : ℕ → Outcome Ident) : ℕ → List Address → List Address
  | _, [] => []
  | n, addr :: rest => addr :: if (outcome n).isFailed then attempts outcome (n + 1) rest else []

theorem attempts_failed {outcome : ℕ → Outcome Ident} (all : ∀ n, (outcome n).isFailed = true) (n : ℕ)
    (addrs : List Address) : attempts outcome n addrs = addrs := by
  induction addrs generalizing n with
  | nil => rfl
  | cons addr rest ih => rw [attempts, if_pos (all n), ih]

theorem mem_attempts {n : ℕ} {addrs : List Address} (member : a ∈ attempts outcome n addrs) : a ∈ addrs := by
  induction addrs generalizing n with
  | nil => exact member
  | cons addr rest ih =>
    rw [attempts] at member
    obtain rfl | later := List.mem_cons.mp member
    · exact List.mem_cons_self
    · split_ifs at later
      · exact List.mem_cons_of_mem _ (ih later)
      · exact absurd later List.not_mem_nil

theorem tryCandidates_asked (n : ℕ) (lastError : Option String) (addrs : List Address) :
    (tryCandidates s outcome now st n lastError addrs).asked = (attempts outcome n addrs).map s.candidateUrl := by
  induction addrs generalizing n lastError with
  | nil => rfl
  | cons addr rest ih =>
    rw [tryCandidates, attempts]
    dsimp only
    cases ended : outcome n with
    | answered ident => rfl
    | failed error =>
      dsimp only
      rw [ih]
      rfl
    | raised => rfl

theorem tryCandidates_answered {ident : Ident} {before after : List Address} {n : ℕ} {lastError : Option String}
    (down : ∀ i < before.length, (outcome (n + i)).isFailed = true)
    (up : outcome (n + before.length) = .answered ident) :
    tryCandidates s outcome now st n lastError (before ++ addr :: after) =
      ⟨(before ++ [addr]).map s.candidateUrl, s.useAddress addr, ⟨true, some ident, some now, none, some addr⟩,
        false⟩ := by
  induction before generalizing n lastError with
  | nil =>
    rw [List.length_nil, Nat.add_zero] at up
    rw [List.nil_append, tryCandidates, up]
    rfl
  | cons b before ih =>
    have first := down 0 (Nat.succ_pos _)
    rw [Nat.add_zero] at first
    have later : ∀ i < before.length, (outcome (n + 1 + i)).isFailed = true := by
      intro i within
      have step := down (i + 1) (Nat.succ_lt_succ within)
      rwa [Nat.add_comm i, ← Nat.add_assoc] at step
    rw [List.length_cons, Nat.add_comm before.length, ← Nat.add_assoc] at up
    rw [List.cons_append, tryCandidates]
    cases ended : outcome n with
    | answered other => rw [ended] at first; exact absurd first Bool.false_ne_true
    | raised => rw [ended] at first; exact absurd first Bool.false_ne_true
    | failed error =>
      dsimp only
      rw [ih later up]
      rfl

/-- No address is lost, and the old main one is an alternative. -/
theorem Sensor.useAddress_spec (member : addr ∈ s.known) :
    (s.useAddress addr).address = addr ∧ (∀ a, a ∈ (s.useAddress addr).known ↔ a ∈ s.known) ∧
      (addr ≠ s.address → (s.useAddress addr).altAddresses = s.known.filter fun a => a ≠ addr) ∧
      (s.useAddress addr).port = s.port ∧ (s.useAddress addr).id = s.id ∧ (s.useAddress addr).source = s.source := by
  rw [useAddress]
  split_ifs with here
  · exact ⟨here, fun _ => Iff.rfl, fun other => absurd here.symm other, rfl, rfl, rfl⟩
  · refine ⟨rfl, fun a => ?_, fun _ => rfl, rfl, rfl, rfl⟩
    rw [known, List.mem_cons, List.mem_filter, decide_eq_true_eq]
    constructor
    · rintro (rfl | ⟨old, -⟩)
      · exact member
      · exact old
    · intro old
      by_cases main : a = addr
      · exact Or.inl main
      · exact Or.inr ⟨old, main⟩

theorem Sensor.mem_candidates : a ∈ s.candidates rank ↔ a ∈ s.known := by
  rw [candidates]
  cases s.source with
  | mdns => exact List.mem_mergeSort
  | manual => exact Iff.rfl

/-- What a sighting advertises is known from then on. -/
theorem Sensor.seenOnMdns_known {old : Option Sensor} {id : String} {best : Address} {others : List Address}
    {port : Port} (member : a ∈ best :: others) : a ∈ (seenOnMdns old id best others port).known := by
  by_cases main : a = (seenOnMdns old id best others port).address
  · exact List.mem_cons.mpr (Or.inl main)
  · have kept : a ∈ (seenOnMdns old id best others port).altAddresses :=
      List.mem_filter.mpr ⟨member, decide_eq_true main⟩
    exact List.mem_cons_of_mem _ kept

/-- Every candidate that a poll gets to is asked at the URL it would have as the main address. -/
def Sensor.PollsMeant (Ident : Type*) (rank : List Char → ℕ) (s : Sensor) : Prop :=
  ∀ (outcome : ℕ → Outcome Ident) (now : ℚ) (st : Status Ident),
    (refresh rank s outcome now st).asked =
      (attempts outcome 0 (s.candidates rank)).map fun addr => ({ s with address := addr } : Sensor).baseUrl

theorem Sensor.pollsMeant_iff :
    s.PollsMeant Ident rank ↔ ∀ addr ∈ s.altAddresses, addr ≠ s.address → s.Replaceable addr := by
  constructor
  · intro meant addr member other
    have asked := meant (fun _ => .failed "") 0 ⟨false, none, none, none, none⟩
    rw [refresh, tryCandidates_asked, attempts_failed (fun _ => rfl)] at asked
    have here := List.map_inj_left.mp asked addr (mem_candidates.mpr (List.mem_cons_of_mem _ member))
    exact (candidateUrl_iff other).mp here
  · intro alike outcome now st
    rw [refresh, tryCandidates_asked]
    refine List.map_congr_left fun addr member => ?_
    by_cases main : addr = s.address
    · rw [main]
      exact ReplaceText.first_self _
    · have listed := (List.mem_cons.mp (mem_candidates.mp (mem_attempts member))).resolve_left main
      exact (candidateUrl_iff main).mpr (alike addr listed main)

/-- A poll asks at the addresses it means where the URL of the main one can be
rewritten for the others, it ends with the one that answered and every other as
an alternative, and an accepted address is read back where it is `Readable`. -/
theorem polls_meant (rank : List Char → ℕ) :
    (∀ s : Sensor,
      (s.PollsMeant Ident rank ↔ ∀ addr ∈ s.altAddresses, addr ≠ s.address → s.Replaceable addr) ∧
        ∀ (outcome : ℕ → Outcome Ident) (now : ℚ) (st : Status Ident) (ident : Ident) (before : List Address)
          (addr : Address) (after : List Address),
          s.candidates rank = before ++ addr :: after → (∀ i < before.length, (outcome i).isFailed = true) →
          outcome before.length = .answered ident →
          let polled := refresh rank s outcome now st
          polled.sensor.address = addr ∧ (∀ a, a ∈ polled.sensor.known ↔ a ∈ s.known) ∧
            (addr ≠ s.address → polled.sensor.altAddresses = s.known.filter fun a => a ≠ addr) ∧
            polled.sensor.port = s.port ∧ polled.sensor.id = s.id ∧
            polled.status = ⟨true, some ident, some now, none, some addr⟩) ∧
      ∀ (text host : List Char) (port : ℕ), parseAddress text = some (host, port) →
        (parseAddress (baseUrl host port) = some (host, port) ↔ Readable host port) := by
  refine ⟨fun s => ⟨Sensor.pollsMeant_iff, ?_⟩, ?_⟩
  · intro outcome now st ident before addr after order down up
    have listed : addr ∈ s.candidates rank := by
      rw [order]
      exact List.mem_append_right _ List.mem_cons_self
    have member := Sensor.mem_candidates.mp listed
    obtain ⟨main, whole, others, port, id, -⟩ := Sensor.useAddress_spec member
    have ended : tryCandidates s outcome now st 0 none (before ++ addr :: after) = _ :=
      tryCandidates_answered (by simpa only [Nat.zero_add] using down) (by rw [Nat.zero_add]; exact up)
    dsimp only
    rw [refresh, order, ended]
    exact ⟨main, whole, others, port, id, rfl⟩
  · intro text host port read
    obtain ⟨⟨filled, clean⟩, above, below⟩ := parseAddress_valid read
    exact parseAddress_baseUrl filled clean above below

/-- A sensor that was added by its IPv6 address and then seen at an IPv4 one. -/
def addedByV6 : Sensor where
  id := "nano"
  address := ⟨"fe80::1".toList, by decide⟩
  port := ⟨80, by decide⟩
  source := .manual
  altAddresses := [⟨"10.0.0.5".toList, by decide⟩]

/-- Its IPv4 address is asked for in brackets, and a host that ends in a bracket is not read back. -/
theorem polls_bracketed :
    ¬ addedByV6.PollsMeant Unit (fun _ => 0) ∧
      (refresh (fun _ => 0) addedByV6 (fun _ => (Outcome.failed "ConnectError: " : Outcome Unit)) 0
          ⟨false, none, none, none, none⟩).asked = ["http://[fe80::1]".toList, "http://[10.0.0.5]".toList] ∧
      parseAddress "fe80::1]".toList = some ("fe80::1]".toList, 80) ∧
      parseAddress (baseUrl "fe80::1]".toList 80) = some ("fe80::1".toList, 80) := by
  refine ⟨fun meant => ?_, by decide, by decide, by decide⟩
  have asked := meant (fun _ => .failed "") 0 ⟨false, none, none, none, none⟩
  revert asked
  decide

end FleetAddress

end RFObserver
