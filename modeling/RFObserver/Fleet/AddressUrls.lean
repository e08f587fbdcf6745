import Mathlib.Data.List.TakeWhile
import RFObserver.Fleet.Addresses

/-! When the fleet asks a sensor at the address it means. -/

namespace RFObserver

namespace FleetAddress
open Settings

variable {a c : Address} {host t u : List Char} {port : ℕ}

theorem baseUrl_eq : baseUrl host port = "http:".toList ++ '/' :: '/' :: (urlHost host ++ urlPort port) := rfl

theorem length_urlHost : (urlHost host).length = host.length + if ':' ∈ host then 2 else 0 := by
  rw [urlHost]
  split_ifs
  · rw [List.length_cons, List.length_append, List.length_singleton]
  · rfl

theorem urlHost_has_host : host <:+: urlHost host := by
  rw [urlHost]
  split_ifs
  · exact ⟨['['], [']'], rfl⟩
  · exact List.infix_rfl

theorem baseUrl_has_host : host <:+: baseUrl host port :=
  ((urlHost_has_host.trans (List.prefix_append ..).isInfix).trans (List.suffix_append ..).isInfix)

/-- The replaced text is the host where both hosts are written alike. -/
theorem first_baseUrl (alike : ':' ∈ c.1 ↔ ':' ∈ a.1) (apart : ¬ a.1 <:+: "http:".toList) :
    ReplaceText.first a.1 c.1 (baseUrl a.1 port) = baseUrl c.1 port := by
  have slash : ∀ rest, ¬ a.1 <+: '/' :: rest := by
    intro rest starts
    exact a.2.1 (List.prefix_nil.mp (ReplaceText.prefix_of_notMem (t := []) a.2.2 starts))
  have outside : ∀ tail, tail <:+ "http:".toList → tail ≠ [] → ∀ rest, ¬ a.1 <+: tail ++ '/' :: rest := by
    intro tail suffix _ rest starts
    exact apart ((ReplaceText.prefix_of_notMem a.2.2 starts).isInfix.trans suffix.isInfix)
  rw [baseUrl_eq, baseUrl_eq, ReplaceText.first_append fun tail suffix filled => outside tail suffix filled _,
    ReplaceText.first_skip (slash _), ReplaceText.first_skip (slash _), urlHost, urlHost]
  by_cases colon : ':' ∈ a.1
  · have bracket : ¬ a.1 <+: '[' :: (a.1 ++ ([']'] ++ urlPort port)) := by
      intro starts
      exact absurd (ReplaceText.eq_of_prefix_cons starts ':' colon) (by decide)
    rw [if_pos colon, if_pos (alike.mpr colon), List.cons_append, List.cons_append, List.append_assoc,
      List.append_assoc, ReplaceText.first_skip bracket, ReplaceText.first_prefix]
  · rw [if_neg colon, if_neg (mt alike.mp colon), ReplaceText.first_prefix]

/-- An address that can be replaced by `c` in the URL of the main one. -/
def Sensor.Replaceable (s : Sensor) (c : Address) : Prop :=
  (':' ∈ c.1 ↔ ':' ∈ s.address.1) ∧ ¬ s.address.1 <:+: "http:".toList

theorem Sensor.candidateUrl_iff {s : Sensor} (other : c ≠ s.address) :
    s.candidateUrl c = FleetAddress.baseUrl c.1 s.port.1 ↔ s.Replaceable c := by
  constructor
  · intro same
    refine ⟨?_, ?_⟩
    · have inside : s.address.1 <:+: FleetAddress.baseUrl s.address.1 s.port.1 := baseUrl_has_host
      have lengths := ReplaceText.length_first inside c.1
      rw [candidateUrl, baseUrl] at same
      rw [same, FleetAddress.baseUrl, FleetAddress.baseUrl] at lengths
      simp only [List.length_append, length_urlHost] at lengths
      by_cases colon : ':' ∈ c.1 <;> by_cases main : ':' ∈ s.address.1 <;> simp [colon, main] at lengths ⊢
      all_goals omega
    · intro inside
      obtain ⟨before, after, split, replaced⟩ := ReplaceText.first_occurs inside
      rw [candidateUrl, baseUrl, baseUrl_eq, replaced, baseUrl_eq] at same
      have absent : '/' ∉ before ++ s.address.1 ++ after := by rw [← split]; decide
      simp only [List.mem_append, not_or] at absent
      have here : '/' ∉ before ++ c.1 ++ after := by
        simp only [List.mem_append, not_or]
        exact ⟨⟨absent.1.1, c.2.2⟩, absent.2⟩
      have there : '/' ∉ "http:".toList := by decide
      have texts := ReplaceText.eq_of_notMem there here same.symm
      rw [split, List.append_assoc, List.append_assoc, List.append_cancel_left_eq, List.append_cancel_right_eq] at texts
      exact other (Subtype.ext texts.symm)
  · rintro ⟨alike, apart⟩
    exact first_baseUrl alike apart

/-! What `parse_address` reads of a URL. -/

theorem rdropWhile_isSpace (last : ∀ d ∈ t.getLast?, isSpace d = false) : t.rdropWhile isSpace = t := by
  rw [List.rdropWhile_eq_self_iff]
  intro filled
  rw [last _ (List.getLast?_eq_some_getLast filled)]
  exact Bool.false_ne_true

theorem length_rdropWhile_lt {d : Char} (last : d ∈ t.getLast?) (space : isSpace d = true) :
    (t.rdropWhile isSpace).length < t.length := by
  obtain ⟨front, rfl⟩ := List.getLast?_eq_some_iff.mp last
  have shorter := (List.rdropWhile_prefix isSpace front).length_le
  rw [List.rdropWhile_concat_pos _ _ _ space, List.length_append, List.length_singleton]
  omega

theorem strip_scheme : strip (scheme ++ t) = scheme ++ t.rdropWhile isSpace := by
  have start : (scheme ++ t).dropWhile isSpace = scheme ++ t := by
    rw [List.dropWhile_eq_self_iff]
    exact fun _ => Bool.false_ne_true
  rw [strip, start, List.rdropWhile, List.reverse_append, List.dropWhile_append]
  split_ifs with spaces
  · rw [List.isEmpty_iff.mp spaces]
    rfl
  · rw [List.reverse_append, List.reverse_reverse]

theorem bare_scheme (absent : '/' ∉ t) : bare (scheme ++ t) = t.rdropWhile isSpace := by
  have none : '/' ∉ t.rdropWhile isSpace := fun member => absent ((List.rdropWhile_prefix isSpace t).subset member)
  have plain : ¬ "https://".toList <+: t.rdropWhile isSpace := fun starts => none (starts.subset (by decide))
  have inner : dropPrefix scheme (scheme ++ t.rdropWhile isSpace) = t.rdropWhile isSpace := by
    rw [dropPrefix, if_pos (List.prefix_append ..), List.drop_left]
  rw [bare, strip_scheme, inner, dropPrefix, if_neg plain, List.rdropWhile_eq_self_iff]
  intro filled
  rw [beq_iff_eq]
  exact fun slash => none (slash ▸ List.getLast_mem filled)

theorem partition_eq {d : Char} (absent : d ∉ t) (u : List Char) : partition d (t ++ d :: u) = (t, u) := by
  have before : (t ++ d :: u).takeWhile (fun e => e != d) = t := by
    rw [List.takeWhile_append_of_pos, List.takeWhile_cons_of_neg (by simp), List.append_nil]
    intro e member
    rw [bne_iff_ne]
    exact fun same => absent (same ▸ member)
  rw [partition, before]
  congr 1
  rw [List.drop_append, List.drop_eq_nil_of_le (by omega)]
  simp

theorem partition_start (d : Char) : (partition d t).1 <+: t := List.takeWhile_prefix _

theorem notMem_partition (d : Char) : d ∉ (partition d t).1 := by
  intro member
  have := List.mem_takeWhile_imp (p := fun e => e != d) member
  simp at this

/-- The host is part of what is read, without the bracket before it. -/
theorem hostPort_host {p : ℤ} (read : hostPort t = some (host, p)) :
    if t.head? = some '[' then host = (partition ']' t.tail).1 else host <+: t := by
  rw [hostPort] at read
  dsimp only at read
  split_ifs at read ⊢ with bracket colon one
  · obtain ⟨port, -, same⟩ := Option.map_eq_some_iff.mp read
    exact (congrArg Prod.fst same).symm
  · exact (congrArg Prod.fst (Option.some.inj read)).symm
  · obtain ⟨port, -, same⟩ := Option.map_eq_some_iff.mp read
    obtain rfl : _ = host := congrArg Prod.fst same
    exact partition_start ':'
  · obtain rfl : t = host := congrArg Prod.fst (Option.some.inj read)
    exact List.prefix_rfl

theorem hostPort_length {p : ℤ} (read : hostPort t = some (host, p)) : host.length ≤ t.length := by
  have found := hostPort_host read
  split_ifs at found
  · rw [found]
    exact (partition_start ']').length_le.trans (List.tail_suffix t).length_le
  · exact found.length_le

theorem isSpace_of_isDigit {d : Char} (digit : d.isDigit = true) : isSpace d = false := by
  have range : 48 ≤ d.toNat ∧ d.toNat < 58 := by
    simp only [Char.isDigit, Bool.and_eq_true, decide_eq_true_eq, UInt32.le_iff_toNat_le] at digit
    exact ⟨digit.1, Nat.lt_succ_of_le digit.2⟩
  simp only [isSpace, decide_eq_false_iff_not]
  omega

theorem digits_toDigits : ∀ d ∈ Nat.toDigits 10 port, d.isDigit = true := fun _ member =>
  Nat.isDigit_of_mem_toDigits (by decide) (by decide) member

theorem int_toDigits (small : port < 65536) : int (Nat.toDigits 10 port) = some port := by
  have short : (Nat.toDigits 10 port).length ≤ FleetCursor.maxStrDigits := by
    refine (Nat.length_toDigits_le_iff (by decide) (by decide)).mpr (lt_of_lt_of_le small ?_)
    exact (by decide : 65536 ≤ 10 ^ 5).trans (Nat.pow_le_pow_right (by decide) (by decide))
  obtain ⟨read, -⟩ := FleetCursor.int_str (if_pos short)
  have space : ∀ d ∈ Nat.toDigits 10 port, ¬ intSpace d = true := by
    intro d member
    rw [intSpace, isSpace_of_isDigit (digits_toDigits d member)]
    exact Bool.false_ne_true
  have absent : ∀ {d : Char}, d.isDigit = false → d ∉ Nat.toDigits 10 port := by
    intro d other member
    exact absurd (digits_toDigits d member) (by rw [other]; exact Bool.false_ne_true)
  have front : (Nat.toDigits 10 port).dropWhile intSpace = Nat.toDigits 10 port :=
    List.dropWhile_eq_self_iff.mpr fun long => space _ (List.getElem_mem long)
  have back : (Nat.toDigits 10 port).rdropWhile intSpace = Nat.toDigits 10 port :=
    List.rdropWhile_eq_self_iff.mpr fun some_ => space _ (List.getLast_mem some_)
  have unsigned : ∀ {d : Char}, d.isDigit = false → (Nat.toDigits 10 port).head? ≠ some d := fun other first =>
    absent other (List.mem_of_mem_head? first)
  have groups : digitGroups (Nat.toDigits 10 port) = some port := by
    rw [digitGroups, List.splitOn_eq_singleton (absent rfl), List.flatten_singleton, if_neg, read]
    simp
  rw [int, front, back, if_neg (unsigned rfl), if_neg (unsigned rfl), groups]
  rfl

/-- What the checks of `parse_address` leave. -/
theorem parseAddress_iff {text : List Char} :
    parseAddress text = some (host, port) ↔
      (bare text ≠ [] ∧ '/' ∉ bare text) ∧ hostPort (bare text) = some (host, (port : ℤ)) ∧ host ≠ [] ∧ 0 < port ∧
        port < 65536 := by
  rw [parseAddress]
  split_ifs with bad
  · simp only [false_iff, not_and]
    intro good
    exact absurd bad (not_or.mpr good)
  · rw [Option.map_eq_some_iff]
    constructor
    · rintro ⟨⟨h, p⟩, found, same⟩
      obtain ⟨read, valid⟩ := Option.filter_eq_some_iff.mp found
      obtain ⟨some_, above, below⟩ := of_decide_eq_true valid
      cases same
      have number : ((p.toNat : ℕ) : ℤ) = p := Int.toNat_of_nonneg above.le
      dsimp only at above below
      refine ⟨not_or.mp bad, ?_, some_, by omega, by omega⟩
      rw [number]
      exact read
    · rintro ⟨-, read, some_, above, below⟩
      refine ⟨(host, (port : ℤ)), Option.filter_eq_some_iff.mpr ⟨read, decide_eq_true ⟨some_, ?_, ?_⟩⟩, rfl⟩
      · dsimp only
        omega
      · dsimp only
        omega

/-- An accepted text is the address of a sensor. -/
theorem parseAddress_valid {text : List Char} (read : parseAddress text = some (host, port)) :
    (host ≠ [] ∧ '/' ∉ host) ∧ 0 < port ∧ port < 65536 := by
  obtain ⟨⟨-, clean⟩, parts, some_, range⟩ := parseAddress_iff.mp read
  refine ⟨⟨some_, fun slash => clean ?_⟩, range⟩
  have found := hostPort_host parts
  split_ifs at found
  · exact List.mem_of_mem_tail ((partition_start ']').subset (found ▸ slash))
  · exact found.subset slash

/-- The hosts whose URL is read as the same host and port. -/
def Readable (host : List Char) (port : ℕ) : Prop :=
  if ':' ∈ host then ']' ∉ host
  else host.head? ≠ some '[' ∧ (port = 80 → ∀ d ∈ host.getLast?, isSpace d = false)

section RoundTrip

variable {text : List Char}

theorem notMem_urlPort {d : Char} (other : d.isDigit = false) (apart : d ≠ ':') : d ∉ urlPort port := by
  rw [urlPort]
  split_ifs
  · exact List.not_mem_nil
  · refine List.not_mem_cons_of_ne_of_not_mem apart fun member => ?_
    exact absurd (digits_toDigits d member) (by rw [other]; exact Bool.false_ne_true)

theorem notMem_url (clean : '/' ∉ host) : '/' ∉ urlHost host ++ urlPort port := by
  rw [List.mem_append, not_or]
  refine ⟨?_, notMem_urlPort rfl (by decide)⟩
  rw [urlHost]
  split_ifs
  · simp [clean]
  · exact clean

/-- A URL with a port ends in a digit. -/
theorem rdropWhile_url (other : port ≠ 80) (front : List Char) :
    (front ++ urlPort port).rdropWhile isSpace = front ++ urlPort port := by
  obtain ⟨digits, d, split⟩ := (List.eq_nil_or_concat' (Nat.toDigits 10 port)).resolve_left Nat.toDigits_ne_nil
  have member : d ∈ Nat.toDigits 10 port := by
    rw [split]
    exact List.mem_append_right _ (List.mem_singleton_self d)
  have digit : isSpace d = false := isSpace_of_isDigit (digits_toDigits d member)
  have joined : front ++ urlPort port = (front ++ ':' :: digits) ++ [d] := by
    rw [urlPort, if_neg other, split, List.append_assoc, List.cons_append]
  rw [joined, List.rdropWhile_concat_neg _ _ _ (by rw [digit]; exact Bool.false_ne_true)]

theorem hostPort_v6 (small : port < 65536) (closed : ']' ∉ host) :
    hostPort ('[' :: (host ++ [']'] ++ urlPort port)) = some (host, (port : ℤ)) := by
  have parts := partition_eq closed (urlPort port)
  rw [hostPort, if_pos (List.head?_cons ..), List.tail_cons, List.append_assoc, List.singleton_append, parts]
  dsimp only
  rw [urlPort]
  by_cases eighty : port = 80
  · rw [if_pos eighty, if_neg (by nofun), eighty]
    rfl
  · rw [if_neg eighty, if_pos (List.head?_cons ..), List.tail_cons, int_toDigits small]
    rfl

theorem hostPort_named (small : port < 65536) (plain : ':' ∉ host) (first : host.head? ≠ some '[') (some_ : host ≠ []) :
    hostPort (host ++ urlPort port) = some (host, (port : ℤ)) := by
  have unopened : (host ++ urlPort port).head? ≠ some '[' := by
    rw [List.head?_append_of_ne_nil _ some_]
    exact first
  rw [hostPort, if_neg unopened, urlPort]
  by_cases eighty : port = 80
  · rw [if_pos eighty, List.append_nil, List.count_eq_zero_of_not_mem plain, if_neg (by decide), eighty]
    rfl
  · have digits : (Nat.toDigits 10 port).count ':' = 0 := by
      refine List.count_eq_zero_of_not_mem fun member => ?_
      exact absurd (digits_toDigits _ member) (by decide)
    rw [if_neg eighty, List.count_append, List.count_cons_self, List.count_eq_zero_of_not_mem plain, digits, if_pos rfl,
      partition_eq plain, int_toDigits small]
    rfl

theorem rdropWhile_v6 (colon : ':' ∈ host) :
    (urlHost host ++ urlPort port).rdropWhile isSpace = '[' :: (host ++ [']'] ++ urlPort port) := by
  rw [urlHost, if_pos colon]
  by_cases eighty : port = 80
  · rw [urlPort, if_pos eighty, List.append_nil, List.append_nil, ← List.cons_append,
      List.rdropWhile_concat_neg _ _ _ (by decide)]
  · rw [rdropWhile_url eighty, List.cons_append]

/-- The record of an accepted address is read back from its URL where it is `Readable`. -/
theorem parseAddress_baseUrl (filled : host ≠ []) (clean : '/' ∉ host) (above : 0 < port) (below : port < 65536) :
    parseAddress (baseUrl host port) = some (host, port) ↔ Readable host port := by
  rw [parseAddress_iff, baseUrl, bare_scheme (notMem_url clean), Readable]
  have short : (urlHost host ++ urlPort port).rdropWhile isSpace <+: urlHost host ++ urlPort port :=
    List.rdropWhile_prefix ..
  have noSlash : '/' ∉ (urlHost host ++ urlPort port).rdropWhile isSpace := fun slash =>
    notMem_url clean (short.subset slash)
  by_cases colon : ':' ∈ host
  · rw [if_pos colon]
    rw [rdropWhile_v6 colon] at noSlash ⊢
    constructor
    · rintro ⟨-, read, -⟩
      have found := hostPort_host read
      rw [if_pos (List.head?_cons ..)] at found
      rw [found]
      exact notMem_partition ']'
    · intro closed
      exact ⟨⟨List.cons_ne_nil _ _, noSlash⟩, hostPort_v6 below closed, filled, above, below⟩
  · rw [if_neg colon]
    rw [urlHost, if_neg colon] at short noSlash ⊢
    constructor
    · rintro ⟨⟨some_, -⟩, read, -⟩
      have found := hostPort_host read
      refine ⟨fun opened => ?_, fun eighty d last => ?_⟩
      · obtain ⟨rest, rfl⟩ := List.head?_eq_some_iff.mp opened
        obtain ⟨e, kept, split⟩ := List.exists_cons_of_ne_nil some_
        rw [split] at short found
        obtain ⟨rfl, inner⟩ := List.cons_prefix_cons.mp short
        rw [if_pos (List.head?_cons ..)] at found
        have again : '[' :: rest <+: rest ++ urlPort port := by
          rw [found]
          exact (partition_start ']').trans inner
        have inside : '[' :: rest <+: rest := by
          rw [urlPort] at again
          split_ifs at again
          · rwa [List.append_nil] at again
          · exact ReplaceText.prefix_of_notMem colon again
        have longer := inside.length_le
        rw [List.length_cons] at longer
        omega
      · by_contra space
        rw [Bool.not_eq_false] at space
        have shorter := length_rdropWhile_lt last space
        rw [urlPort, if_pos eighty, List.append_nil] at read
        have longer := hostPort_length read
        omega
    · rintro ⟨first, last⟩
      have whole : (host ++ urlPort port).rdropWhile isSpace = host ++ urlPort port := by
        by_cases eighty : port = 80
        · rw [urlPort, if_pos eighty, List.append_nil, rdropWhile_isSpace (last eighty)]
        · exact rdropWhile_url eighty host
      rw [whole] at noSlash ⊢
      exact ⟨⟨List.append_ne_nil_of_left_ne_nil filled _, noSlash⟩, hostPort_named below colon first filled, filled,
        above, below⟩

end RoundTrip

end FleetAddress

end RFObserver
