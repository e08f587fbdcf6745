import RFObserver.Pipeline.Recording

namespace RFObserver
open LossyStream

variable {α : Type*}

namespace Recording

/-- Everything about the file but its gap list and counters is the same. -/
structure SameFile (r r' : Recording α) : Prop where
  ram : r'.ram = r.ram
  file : r'.file = r.file
  bufPos : r'.bufPos = r.bufPos
  bytes : r'.bytes = r.bytes
  ring : r'.ring = r.ring
  nextPos : r'.nextPos = r.nextPos
  startSample : r'.startSample = r.startSample

theorem SameFile.trans {a b c : Recording α} (first : SameFile a b) (second : SameFile b c) : SameFile a c :=
  ⟨second.ram.trans first.ram, second.file.trans first.file, second.bufPos.trans first.bufPos,
    second.bytes.trans first.bytes, second.ring.trans first.ring, second.nextPos.trans first.nextPos,
    second.startSample.trans first.startSample⟩

/-- From `r` to `r'` the gaps `calls` were added, at file indices: those at
index 0 lie before the file and count for nothing. -/
structure Adds (r r' : Recording α) (calls : Gaps) : Prop where
  same : SameFile r r'
  complete : r'.gapsTruncated = false → r.gapsTruncated = false
  gaps : r'.gapsTruncated = false → ∀ (p : Nat → Prop) [DecidablePred p],
    lostWhere p r'.gaps = lostWhere p r.gaps + lostWhere (fun i => 0 < i ∧ p i) calls
  index : ∀ g ∈ r'.gaps, g ∈ r.gaps ∨ ∃ h ∈ calls, 0 < h.1 ∧ g.1 = h.1
  lost : r'.lost = r.lost + lostWhere (0 < ·) calls

theorem Adds.nil (r : Recording α) : Adds r r [] :=
  ⟨⟨rfl, rfl, rfl, rfl, rfl, rfl, rfl⟩, id, fun _ _ _ => rfl, fun _ member => Or.inl member, rfl⟩

theorem Adds.trans {a b c : Recording α} {g h : Gaps} (first : Adds a b g) (second : Adds b c h) :
    Adds a c (g ++ h) where
  same := first.same.trans second.same
  complete := fun whole => first.complete (second.complete whole)
  gaps whole p _ := by
    rw [second.gaps whole, first.gaps (second.complete whole), lostWhere_append, Nat.add_assoc]
  index := by
    intro x member
    rcases second.index x member with old | ⟨y, late, positive, equal⟩
    · rcases first.index x old with older | ⟨y, early, positive, equal⟩
      · exact Or.inl older
      · exact Or.inr ⟨y, List.mem_append_left _ early, positive, equal⟩
    · exact Or.inr ⟨y, List.mem_append_right _ late, positive, equal⟩
  lost := by rw [second.lost, first.lost, lostWhere_append, Nat.add_assoc]

theorem addRecordingGap_adds (r : Recording α) (index lost : Nat) (overflow : Bool) :
    Adds r (r.addRecordingGap index lost overflow) [(index, lost)] := by
  unfold addRecordingGap
  by_cases ignored : index = 0 ∨ lost = 0
  · rw [if_pos ignored]
    have nothing : ∀ (p : Nat → Prop) [DecidablePred p], lostWhere (fun i => 0 < i ∧ p i) [(index, lost)] = 0 := by
      intro p _
      rcases ignored with rfl | rfl <;> simp
    refine ⟨(Adds.nil r).same, id, fun _ p _ => by rw [nothing]; rfl, fun _ member => Or.inl member, ?_⟩
    have := nothing fun _ => True
    simp only [and_true] at this
    rw [this]
    rfl
  · rw [if_neg ignored]
    have positive : 0 < index := by omega
    obtain ⟨counted, counts⟩ : ∃ n, (if overflow then r.overflows + 1 else r.overflows) = n := ⟨_, rfl⟩
    simp only [counts]
    split
    · rename_i g last
      have split : r.gaps = r.gaps.dropLast ++ [g] := (List.dropLast_append_getLast? g last).symm
      by_cases merge : g.1 = index
      · rw [if_pos merge]
        refine ⟨⟨rfl, rfl, rfl, rfl, rfl, rfl, rfl⟩, id, fun _ p _ => ?_, fun x member => ?_, by simp [positive]⟩
        · rw [congrArg (lostWhere p) split]
          by_cases inside : p index
          · simp [inside, positive, merge]
            omega
          · simp [inside, merge]
        · rcases List.mem_append.mp member with old | new
          · exact Or.inl (List.dropLast_subset _ old)
          · rw [List.mem_singleton] at new
            exact Or.inr ⟨(index, lost), List.mem_singleton.mpr rfl, positive, by rw [new]⟩
      · rw [if_neg merge]
        by_cases room : r.gaps.length < maxRecordedGaps
        · rw [if_pos room]
          refine ⟨⟨rfl, rfl, rfl, rfl, rfl, rfl, rfl⟩, id, fun _ p _ => by simp [positive], fun x member => ?_,
            by simp [positive]⟩
          rcases List.mem_append.mp member with old | new
          · exact Or.inl old
          · rw [List.mem_singleton] at new
            exact Or.inr ⟨(index, lost), List.mem_singleton.mpr rfl, positive, by rw [new]⟩
        · rw [if_neg room]
          exact ⟨⟨rfl, rfl, rfl, rfl, rfl, rfl, rfl⟩, fun whole => (by cases whole), fun whole => (by cases whole),
            fun _ member => Or.inl member, by simp [positive]⟩
    · rename_i empty
      have none : r.gaps = [] := List.getLast?_eq_none_iff.mp empty
      refine ⟨⟨rfl, rfl, rfl, rfl, rfl, rfl, rfl⟩, id, fun _ p _ => by simp [none, positive], fun x member => ?_,
        by simp [positive]⟩
      rw [List.mem_singleton] at member
      exact Or.inr ⟨(index, lost), List.mem_singleton.mpr rfl, positive, by rw [member]⟩

/-- Counting overflows or drops on the way changes nothing here. -/
theorem Adds.counted {r r' s : Recording α} {calls : Gaps} (adds : Adds s r' calls) (same : SameFile r s)
    (gaps : s.gaps = r.gaps) (lost : s.lost = r.lost) (truncated : s.gapsTruncated = r.gapsTruncated) :
    Adds r r' calls where
  same := same.trans adds.same
  complete := fun whole => truncated ▸ adds.complete whole
  gaps := fun whole p _ => by rw [adds.gaps whole, gaps]
  index := by rw [← gaps]; exact adds.index
  lost := by rw [adds.lost, lost]

theorem addMissingStretch_adds (r : Recording α) (log : Gaps) (filePos next chunkStart : Nat) :
    Adds r (r.addMissingStretch log filePos next chunkStart)
      [(filePos, chunkStart - next + lostWhere (fun s => next ≤ s ∧ s < chunkStart) log)] := by
  unfold addMissingStretch
  have logged : ((log.filter fun g => next ≤ g.1 ∧ g.1 < chunkStart).map Prod.snd).sum =
      lostWhere (fun s => next ≤ s ∧ s < chunkStart) log := rfl
  simp only [logged]
  split_ifs
  · exact (addRecordingGap_adds _ _ _ _).counted ⟨rfl, rfl, rfl, rfl, rfl, rfl, rfl⟩ rfl rfl rfl
  · exact addRecordingGap_adds _ _ _ _

theorem dropRecordingChunk_adds (r : Recording α) (filePos n : Nat) (gaps : Gaps) :
    Adds r (r.dropRecordingChunk filePos n gaps) [(filePos, n + (gaps.map Prod.snd).sum)] :=
  (addRecordingGap_adds _ _ _ _).counted ⟨rfl, rfl, rfl, rfl, rfl, rfl, rfl⟩ rfl rfl rfl

theorem foldl_adds (r : Recording α) (calls : Gaps) :
    Adds r (calls.foldl (fun r g => r.addRecordingGap g.1 g.2 true) r) calls := by
  induction calls generalizing r with
  | nil => exact Adds.nil r
  | cons g calls ih => exact (addRecordingGap_adds r g.1 g.2 true).trans (ih _)

theorem addChunkGaps_adds (r : Recording α) (filePos : Nat) (gaps : Gaps) :
    Adds r (r.addChunkGaps filePos gaps) (gaps.map fun g => (filePos + g.1, g.2)) := by
  have adds := foldl_adds r (gaps.map fun g => (filePos + g.1, g.2))
  rwa [List.foldl_map] at adds

/-- The file holds the stream samples at `pos` and its gaps account for all
time up to right before the loss at stream position `n`. -/
structure Accounts (truth : Gaps) (s : List α) (r : Recording α) (pos : List Nat) (n : Nat) : Prop where
  rising : pos.Pairwise (· < ·)
  held : (pos.map fun p => s[p]?) = r.file.map some
  below : ∀ p ∈ pos, p < n
  within : n ≤ s.length
  bytes : r.bytes = r.file.length * 4
  bufPos : r.ram.isSome → r.bufPos = r.file.length
  index : ∀ g ∈ r.gaps, 0 < g.1 ∧ g.1 ≤ pos.length
  lost : r.gapsTruncated = false → r.lost = lostWhere (fun _ => True) r.gaps
  exact : r.gapsTruncated = false → ∀ p0, pos.head? = some p0 → ∀ i p, pos[i]? = some p →
    timeOf truth p = timeOf truth p0 + i + lostWhere (· ≤ i) r.gaps
  total : r.gapsTruncated = false → ∀ p0, pos.head? = some p0 →
    timeBefore truth n = timeOf truth p0 + pos.length + lostWhere (fun _ => True) r.gaps

namespace Accounts
variable {truth : Gaps} {s : List α} {r r' : Recording α} {pos : List Nat} {n m : Nat}

theorem length (accounts : Accounts truth s r pos n) : r.file.length = pos.length := by
  have := congrArg List.length accounts.held
  simpa using this.symm

theorem filePos (accounts : Accounts truth s r pos n) : r.filePos = pos.length := by
  have bytes := accounts.bytes
  have bufPos := accounts.bufPos
  have length := accounts.length
  unfold Recording.filePos
  split
  · rename_i ram
    rw [bufPos ram, length]
  · omega

/-- Time that passes without reaching the file is one gap at its end. -/
theorem advance (accounts : Accounts truth s r pos n) (later : n ≤ m) (within : m ≤ s.length)
    (adds : Adds r r' [(pos.length, m - n + lostWhere (fun p => n ≤ p ∧ p < m) truth)]) :
    Accounts truth s r' pos m where
  rising := accounts.rising
  held := by rw [adds.same.file]; exact accounts.held
  below := fun p member => (accounts.below p member).trans_le later
  within := within
  bytes := by rw [adds.same.bytes, adds.same.file]; exact accounts.bytes
  bufPos := by rw [adds.same.ram, adds.same.bufPos, adds.same.file]; exact accounts.bufPos
  index := by
    intro g member
    rcases adds.index g member with old | ⟨h, new, positive, equal⟩
    · exact accounts.index g old
    · rw [List.mem_singleton] at new
      subst new
      omega
  lost := by
    intro complete
    rw [adds.lost, adds.gaps complete, accounts.lost (adds.complete complete)]
    simp
  exact := by
    intro complete p0 head i p here
    have bound : i < pos.length := (List.getElem?_eq_some_iff.mp here).1
    rw [adds.gaps complete, accounts.exact (adds.complete complete) p0 head i p here]
    simp [Nat.not_le.mpr bound]
  total := by
    intro complete p0 head
    have some : 0 < pos.length := List.length_pos_of_mem (List.mem_of_mem_head? head)
    have before := accounts.total (adds.complete complete) p0 head
    rw [adds.gaps complete, timeBefore_add later, before]
    simp [some]
    omega

/-- Before the first sample there is no gap. -/
theorem drained (accounts : Accounts truth s r [] n) : r.gaps = [] := by
  refine List.eq_nil_iff_forall_not_mem.mpr fun g member => ?_
  have := accounts.index g member
  rw [List.length_nil] at this
  omega

/-- The receive gaps `gaps` of `k` samples from stream position `n` on are
the losses of the stream there. -/
def Own (truth gaps : Gaps) (n k : Nat) : Prop :=
  (∀ (p : Nat → Prop) [DecidablePred p],
    lostWhere (fun i => p (n + i)) gaps = lostWhere (fun j => (n ≤ j ∧ j < n + k) ∧ p j) truth) ∧
  ∀ g ∈ gaps, g.1 < k

/-- The time from the first sample into `k` samples added to the file. -/
theorem reach {gaps : Gaps} {k p0 : Nat} (accounts : Accounts truth s r pos n) (own : Own truth gaps n k)
    (whole : r.gapsTruncated = false) (head : (pos ++ List.range' n k).head? = some p0)
    (p : Nat → Prop) [DecidablePred p] (first : p n) :
    timeBefore truth n + lostWhere (fun j => (n ≤ j ∧ j < n + k) ∧ p j) truth =
      timeOf truth p0 + pos.length + lostWhere (fun _ => True) r.gaps
        + lostWhere (fun i => 0 < pos.length + i ∧ p (n + i)) gaps := by
  by_cases empty : pos = []
  · subst empty
    obtain ⟨rfl, more⟩ : p0 = n ∧ 0 < k := by
      cases k with
      | zero => cases head
      | succ k => exact ⟨(Option.some.inj head).symm, Nat.succ_pos k⟩
    have front : lostWhere (fun i => 0 < [].length (α := Nat) + i ∧ p (p0 + i)) gaps =
        lostWhere (fun j => (p0 ≤ j ∧ j < p0 + k) ∧ (p0 < j ∧ p j)) truth := by
      rw [← own.1 fun j => p0 < j ∧ p j]
      exact lostWhere_congr fun g _ => by simp
    have split : lostWhere (fun j => (p0 ≤ j ∧ j < p0 + k) ∧ p j) truth =
        lostAt truth p0 + lostWhere (fun j => (p0 ≤ j ∧ j < p0 + k) ∧ (p0 < j ∧ p j)) truth := by
      refine lostWhere_add (fun g _ => ⟨fun ⟨range, holds⟩ => ?_, fun split => ?_⟩) (fun g _ => by omega)
      · rcases Nat.eq_or_lt_of_le range.1 with equal | above
        · exact Or.inl equal.symm
        · exact Or.inr ⟨range, above, holds⟩
      · rcases split with equal | ⟨range, -, holds⟩
        · exact ⟨by omega, equal ▸ first⟩
        · exact ⟨range, holds⟩
    rw [accounts.drained, front, split, timeOf_eq]
    simp
    omega
  · have some : 0 < pos.length := List.length_pos_iff.mpr empty
    rw [List.head?_append_of_ne_nil _ empty] at head
    have all : lostWhere (fun i => 0 < pos.length + i ∧ p (n + i)) gaps = lostWhere (fun i => p (n + i)) gaps :=
      lostWhere_congr fun g _ => by simp [some]
    rw [accounts.total whole p0 head, all, own.1]

/-- Samples from `n` on that are written bring their own gaps. -/
theorem extend {d : List α} {gaps : Gaps} {r₁ : Recording α} (accounts : Accounts truth s r pos n)
    (adds : Adds r₁ r' (gaps.map fun g => (r.filePos + g.1, g.2)))
    (here : (s.drop n).take d.length = d) (within : n + d.length ≤ s.length) (own : Own truth gaps n d.length)
    (file : r₁.file = r.file ++ d) (bytes : r₁.bytes = r₁.file.length * 4)
    (bufPos : r₁.ram.isSome → r₁.bufPos = r₁.file.length) (gapsSame : r₁.gaps = r.gaps)
    (lostSame : r₁.lost = r.lost) (truncatedSame : r₁.gapsTruncated = r.gapsTruncated) :
    Accounts truth s r' (pos ++ List.range' n d.length) (n + d.length) := by
  rw [accounts.filePos] at adds
  have whole : r'.gapsTruncated = false → r.gapsTruncated = false :=
    fun complete => truncatedSame ▸ adds.complete complete
  have counted : r'.gapsTruncated = false → ∀ (p : Nat → Prop) [DecidablePred p], lostWhere p r'.gaps =
      lostWhere p r.gaps + lostWhere (fun i => 0 < pos.length + i ∧ p (pos.length + i)) gaps := by
    intro complete p _
    rw [adds.gaps complete, gapsSame, lostWhere_map]
  refine ⟨?_, ?_, ?_, within, ?_, ?_, ?_, ?_, ?_, ?_⟩
  · refine List.pairwise_append.mpr ⟨accounts.rising, List.pairwise_lt_range', fun a old b new => ?_⟩
    have := accounts.below a old
    have := (List.mem_range'_1.mp new).1
    omega
  · rw [List.map_append, accounts.held, adds.same.file, file, List.map_append]
    congr 1
    refine List.ext_getElem? fun i => ?_
    have at_ := congrArg (·[i]?) here
    simp only [List.getElem?_take, List.getElem?_drop] at at_
    by_cases bound : i < d.length
    · rw [if_pos bound] at at_
      simp [bound, at_]
    · simp [bound]
  · intro p member
    rcases List.mem_append.mp member with old | new
    · exact (accounts.below p old).trans_le (Nat.le_add_right n _)
    · exact (List.mem_range'_1.mp new).2
  · rw [adds.same.bytes, adds.same.file, bytes]
  · rw [adds.same.ram, adds.same.bufPos, adds.same.file]
    exact bufPos
  · intro g member
    rw [List.length_append, List.length_range']
    rcases adds.index g member with old | ⟨h, new, positive, equal⟩
    · rw [gapsSame] at old
      have := accounts.index g old
      omega
    · obtain ⟨x, there, rfl⟩ := List.mem_map.mp new
      have := own.2 x there
      simp only at equal positive
      omega
  · intro complete
    rw [adds.lost, lostSame, accounts.lost (whole complete), counted complete, lostWhere_map]
    simp
  · intro complete p0 head i p there
    have gapsThere := counted complete (· ≤ i)
    by_cases old : i < pos.length
    · have head' : pos.head? = some p0 := by
        rwa [List.head?_append_of_ne_nil _ (List.length_pos_iff.mp (by omega))] at head
      have beyond : lostWhere (fun j => 0 < pos.length + j ∧ pos.length + j ≤ i) gaps = 0 :=
        lostWhere_eq_zero fun g _ => by omega
      rw [List.getElem?_append_left old] at there
      rw [gapsThere, accounts.exact (whole complete) p0 head' i p there,
        beyond, Nat.add_zero]
    · rw [List.getElem?_append_right (by omega)] at there
      obtain ⟨bound, value⟩ := List.getElem?_eq_some_iff.mp there
      rw [List.length_range'] at bound
      have place : n + (i - pos.length) = p := by simpa using value
      have time := accounts.reach own (whole complete) head (· ≤ p) (by omega)
      have all : lostWhere (fun _ => True) r.gaps = lostWhere (· ≤ i) r.gaps :=
        lostWhere_congr fun g member => by have := accounts.index g member; simp; omega
      have shifted : lostWhere (fun j => 0 < pos.length + j ∧ n + j ≤ p) gaps =
          lostWhere (fun j => 0 < pos.length + j ∧ pos.length + j ≤ i) gaps :=
        lostWhere_congr fun g _ => by omega
      have range : lostWhere (fun j => n ≤ j ∧ j ≤ p) truth =
          lostWhere (fun j => (n ≤ j ∧ j < n + d.length) ∧ j ≤ p) truth :=
        lostWhere_congr fun g _ => by omega
      rw [timeOf_add (show n ≤ p by omega), range, gapsThere]
      omega
  · intro complete p0 head
    have time := accounts.reach own (whole complete) head (fun _ => True) trivial
    rw [timeBefore_add (show n ≤ n + d.length by omega), counted complete, List.length_append, List.length_range']
    simp only [and_true] at time ⊢
    omega

end Accounts
end Recording
end RFObserver
