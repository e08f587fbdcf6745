import Mathlib.Data.List.Forall2
import Mathlib.Tactic.Ring

/-! Words as bytes, the least one first, and the reads of a buffer of bytes. -/

namespace LittleEndian

def encode : ℕ → ℕ → List UInt8
  | 0, _ => []
  | k + 1, n => UInt8.ofNat n :: encode k (n / 256)

def decode : List UInt8 → ℕ
  | [] => 0
  | b :: rest => b.toNat + 256 * decode rest

/-- The bytes of a word. -/
def put (k : ℕ) (x : BitVec (8 * k)) : List UInt8 := encode k x.toNat

/-- The word at an offset, none beyond the end of the buffer. -/
def get (k : ℕ) (buf : List UInt8) (off : ℕ) : Option (BitVec (8 * k)) :=
  if off + k ≤ buf.length then some (BitVec.ofNat (8 * k) (decode ((buf.drop off).take k))) else none

/-- Records of one width that follow one another. -/
def records {α : Type*} (width : ℕ) (read : ℕ → Option α) : ℕ → ℕ → Option (List α)
  | 0, _ => some []
  | n + 1, off => (read off).bind fun x => (records width read n (off + width)).map (x :: ·)

/-- A view of words: its offset is a multiple of their size, and it is inside the buffer. -/
def view (k : ℕ) (buf : List UInt8) (off n : ℕ) : Option (List (BitVec (8 * k))) :=
  if off % k = 0 ∧ off + k * n ≤ buf.length then records k (get k buf) n off else none

/-- The bytes stand in the buffer at the offset. -/
def At (buf : List UInt8) (off : ℕ) (bytes : List UInt8) : Prop :=
  ∃ before after, buf = before ++ (bytes ++ after) ∧ before.length = off

theorem length_encode (k n : ℕ) : (encode k n).length = k := by
  induction k generalizing n with
  | zero => rfl
  | succ k ih => rw [encode, List.length_cons, ih]

theorem length_put (k : ℕ) (x : BitVec (8 * k)) : (put k x).length = k := length_encode k _

theorem decode_encode (k n : ℕ) (fits : n < 256 ^ k) : decode (encode k n) = n := by
  induction k generalizing n with
  | zero =>
    rw [pow_zero, Nat.lt_one_iff] at fits
    exact fits.symm
  | succ k ih =>
    have rest : n / 256 < 256 ^ k := by
      rw [Nat.div_lt_iff_lt_mul (by decide), ← pow_succ]
      exact fits
    rw [encode, decode, ih _ rest, UInt8.toNat_ofNat']
    omega

theorem ofNat_decode_put (k : ℕ) (x : BitVec (8 * k)) : BitVec.ofNat (8 * k) (decode (put k x)) = x := by
  have fits : x.toNat < 256 ^ k := by
    have below := x.isLt
    rwa [pow_mul] at below
  rw [put, decode_encode k _ fits, BitVec.ofNat_toNat, BitVec.setWidth_eq]

section Reads

variable {buf : List UInt8} {off : ℕ} {a b : List UInt8}

theorem At.self (bytes : List UInt8) : At bytes 0 bytes := ⟨[], [], by simp, rfl⟩

theorem At.left (stands : At buf off (a ++ b)) : At buf off a := by
  obtain ⟨before, after, rfl, length⟩ := stands
  exact ⟨before, b ++ after, by rw [List.append_assoc], length⟩

theorem At.right (stands : At buf off (a ++ b)) : At buf (off + a.length) b := by
  obtain ⟨before, after, rfl, length⟩ := stands
  exact ⟨before ++ a, after, by simp only [List.append_assoc], by rw [List.length_append, length]⟩

theorem At.inside (stands : At buf off a) : off + a.length ≤ buf.length := by
  obtain ⟨before, after, rfl, rfl⟩ := stands
  simp only [List.length_append]
  omega

theorem At.bytes (stands : At buf off a) : (buf.drop off).take a.length = a := by
  obtain ⟨before, after, rfl, rfl⟩ := stands
  rw [List.drop_left, List.take_left]

theorem At.get {k : ℕ} {x : BitVec (8 * k)} (stands : At buf off (put k x)) : get k buf off = some x := by
  have inside := stands.inside
  have bytes := stands.bytes
  rw [length_put] at inside bytes
  rw [LittleEndian.get, if_pos inside, bytes, ofNat_decode_put]

/-- The pieces of one width stand one after another. -/
theorem At.piece {width i : ℕ} {pieces : List (List UInt8)} {piece : List UInt8} (wide : ∀ p ∈ pieces, p.length = width)
    (stands : At buf off pieces.flatten) (isPiece : pieces[i]? = some piece) : At buf (off + width * i) piece := by
  induction pieces generalizing off i with
  | nil => cases isPiece
  | cons first rest ih =>
    rw [List.flatten_cons] at stands
    cases i with
    | zero =>
      obtain rfl := Option.some.inj isPiece
      exact stands.left
    | succ i =>
      have later := ih (fun p member => wide p (List.mem_cons_of_mem _ member)) stands.right isPiece
      rw [wide first List.mem_cons_self] at later
      rwa [Nat.mul_succ, Nat.add_comm (width * i), ← Nat.add_assoc]

/-- Records are read one after another, each at an offset that is as good as the first. -/
theorem At.records {β : Type*} {width : ℕ} {read : ℕ → Option β} {ok : ℕ → Prop}
    (keeps : ∀ off, ok off → ok (off + width)) {pieces : List (List UInt8)} {xs : List β}
    (each : List.Forall₂ (fun piece x => piece.length = width ∧
      ∀ off, ok off → At buf off piece → read off = some x) pieces xs)
    (start : ok off) (stands : At buf off pieces.flatten) : records width read xs.length off = some xs := by
  induction each generalizing off with
  | nil => rfl
  | @cons piece x pieces xs first _ ih =>
    rw [List.flatten_cons] at stands
    have rest := stands.right
    rw [first.1] at rest
    rw [List.length_cons, LittleEndian.records, first.2 off start stands.left, Option.bind_some,
      ih (keeps off start) rest, Option.map_some]

theorem length_flatten {width : ℕ} (pieces : List (List UInt8)) (wide : ∀ p ∈ pieces, p.length = width) :
    pieces.flatten.length = pieces.length * width := by
  rw [List.length_flatten, List.map_congr_left wide, List.map_const', List.sum_replicate_nat]

theorem put_wide {k : ℕ} {xs : List (BitVec (8 * k))} : ∀ p ∈ xs.map (put k), p.length = k := by
  intro p member
  obtain ⟨x, -, rfl⟩ := List.mem_map.mp member
  exact length_put k x

theorem At.view {k : ℕ} (aligned : off % k = 0) {xs : List (BitVec (8 * k))}
    (stands : At buf off (xs.map (put k)).flatten) :
    view k buf off xs.length = some xs := by
  have inside := stands.inside
  rw [length_flatten _ put_wide, List.length_map, Nat.mul_comm] at inside
  rw [LittleEndian.view, if_pos ⟨aligned, inside⟩]
  refine At.records (fun _ (_ : True) => trivial) ?_ trivial stands
  rw [List.forall₂_map_left_iff, List.forall₂_same]
  exact fun x _ => ⟨length_put k x, fun off _ here => here.get⟩

end Reads

end LittleEndian
