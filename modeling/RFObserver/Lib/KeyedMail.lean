import RFObserver.Lib.BoundedDict
import RFObserver.Lib.OptionList

/-! Mail that keeps the newest message of each key, in the order in which the
keys came. -/

/-- `unread` is what was put since the mail was last taken, but for the keys
removed, and `puts`, `takes` and `removes` count the messages. -/
structure KeyedMail (κ μ : Type*) where
  pending : Dict κ μ
  order : List κ
  dropped : ℕ
  unread : List (κ × μ)
  puts : ℕ
  takes : ℕ
  removes : ℕ

namespace KeyedMail

variable {κ μ : Type*} [DecidableEq κ]

def empty : KeyedMail κ μ := ⟨.empty, [], 0, [], 0, 0, 0⟩

def put (mail : KeyedMail κ μ) (k : κ) (m : μ) : KeyedMail κ μ :=
  { mail with
    pending := mail.pending.modify k m fun _ => m
    order := if (mail.pending.get? k).isSome then mail.order else mail.order ++ [k]
    dropped := if (mail.pending.get? k).isSome then mail.dropped + 1 else mail.dropped
    unread := mail.unread ++ [(k, m)]
    puts := mail.puts + 1 }

/-- All messages, in order, and none is left. -/
def take (mail : KeyedMail κ μ) : Option (List μ × KeyedMail κ μ) :=
  (mail.order.mapM mail.pending.get?).map fun messages =>
    (messages, { mail with pending := .empty, order := [], unread := [], takes := mail.takes + messages.length })

/-- A key and its message leave. -/
def removeKey (mail : KeyedMail κ μ) (k : κ) : KeyedMail κ μ :=
  { mail with
    pending := mail.pending.erase k
    order := mail.order.erase k
    unread := mail.unread.filter fun e => e.1 ≠ k
    removes := mail.removes + 1 }

def remove (mail : KeyedMail κ μ) (p : κ → Bool) : KeyedMail κ μ :=
  ((mail.pending.entries.map Prod.fst).filter p).foldl removeKey mail

/-- The last message of a key. -/
def lastOf (k : κ) (l : List (κ × μ)) : Option μ := ((l.filter fun e => e.1 = k).getLast?).map Prod.snd

variable {mail mail' : KeyedMail κ μ} {k k' : κ} {m : μ} {l : List (κ × μ)} {messages : List μ}

theorem lastOf_concat : lastOf k (l ++ [(k', m)]) = if k' = k then some m else lastOf k l := by
  unfold lastOf
  by_cases same : k' = k
  · rw [if_pos same, List.filter_append, List.filter_cons_of_pos (by simpa using same), List.filter_nil,
      List.getLast?_concat]
    rfl
  · rw [if_neg same, List.filter_append, List.filter_cons_of_neg (by simpa using same), List.filter_nil,
      List.append_nil]

theorem lastOf_remove : lastOf k' (l.filter fun e => e.1 ≠ k) = if k' = k then none else lastOf k' l := by
  unfold lastOf
  rw [List.filter_filter]
  by_cases same : k' = k
  · have none : l.filter (fun e => decide (e.1 = k') && decide (e.1 ≠ k)) = [] :=
      List.filter_eq_nil_iff.mpr fun e _ => by simp [same]
    rw [if_pos same, none]
    rfl
  · have other : l.filter (fun e => decide (e.1 = k') && decide (e.1 ≠ k)) = l.filter fun e => e.1 = k' :=
      List.filter_congr fun e _ => by
        by_cases its : e.1 = k'
        · simp [its, same]
        · simp [its]
    rw [if_neg same, other]

/-- The mail holds for each key the last message put since it was taken, the
keys oldest first, and every message put is counted once. -/
structure Sound (mail : KeyedMail κ μ) : Prop where
  keys : mail.order = mail.pending.entries.map Prod.fst
  newest : ∀ k, mail.pending.get? k = lastOf k mail.unread
  oldestFirst : mail.order.Sublist (mail.unread.map Prod.fst)
  counted : mail.puts = mail.takes + mail.removes + mail.dropped + mail.order.length

theorem sound_empty : (empty : KeyedMail κ μ).Sound :=
  ⟨rfl, fun _ => rfl, List.Sublist.refl _, rfl⟩

theorem Sound.nodup (sound : mail.Sound) : mail.order.Nodup := by
  rw [sound.keys]
  exact mail.pending.nodup

theorem Sound.mem_order (sound : mail.Sound) : k ∈ mail.order ↔ (mail.pending.get? k).isSome := by
  rw [sound.keys, ← not_iff_not, ← Dict.get?_eq_none, Option.not_isSome_iff_eq_none]

theorem Sound.put (sound : mail.Sound) (k : κ) (m : μ) : (mail.put k m).Sound := by
  have newest : ∀ k', (mail.pending.modify k m fun _ => m).get? k' = lastOf k' (mail.unread ++ [(k, m)]) := fun k' => by
    rw [Dict.get?_modify, lastOf_concat, sound.newest]
  have added : (mail.unread ++ [(k, m)]).map Prod.fst = mail.unread.map Prod.fst ++ [k] := List.map_append
  have keys : (mail.pending.modify k m fun _ => m).entries.map Prod.fst =
      if k ∈ mail.pending.entries.map Prod.fst then mail.pending.entries.map Prod.fst
      else mail.pending.entries.map Prod.fst ++ [k] := GroupFold.put_keys () mail.pending.entries
  have counted := sound.counted
  unfold KeyedMail.put
  by_cases held : (mail.pending.get? k).isSome = true
  · have old := sound.mem_order.mpr held
    simp only [if_pos held]
    refine ⟨?_, newest, ?_, ?_⟩
    · rw [keys, ← sound.keys, if_pos old]
    · rw [added]
      exact sound.oldestFirst.trans (List.sublist_append_left ..)
    · change mail.puts + 1 = mail.takes + mail.removes + (mail.dropped + 1) + mail.order.length
      omega
  · have new := mt sound.mem_order.mp held
    simp only [if_neg held]
    refine ⟨?_, newest, ?_, ?_⟩
    · rw [keys, ← sound.keys, if_neg new]
    · rw [added]
      exact sound.oldestFirst.append (List.Sublist.refl _)
    · change mail.puts + 1 = mail.takes + mail.removes + mail.dropped + (mail.order ++ [k]).length
      rw [List.length_append, List.length_singleton]
      omega

/-- Taking never fails, and gives the newest message of each key. -/
theorem Sound.take (sound : mail.Sound) : ∃ messages mail', mail.take = some (messages, mail') ∧ mail'.Sound ∧
    List.Forall₂ (fun k m => lastOf k mail.unread = some m) mail.order messages := by
  obtain ⟨messages, got⟩ := OptionList.mapM_isSome.mpr fun k member =>
    Option.isSome_iff_exists.mp (sound.mem_order.mp member)
  have each := OptionList.mapM_forall₂ got
  refine ⟨messages, _, by rw [KeyedMail.take, got, Option.map_some], ⟨rfl, fun _ => rfl, List.Sublist.refl _, ?_⟩, ?_⟩
  · have counted := sound.counted
    have length := each.length_eq
    change mail.puts = mail.takes + messages.length + mail.removes + mail.dropped + 0
    omega
  · exact each.imp fun k m its => (sound.newest k).symm.trans its

theorem Sound.removeKey (sound : mail.Sound) (held : k ∈ mail.order) : (mail.removeKey k).Sound := by
  have erased : mail.order.erase k = mail.order.filter fun k' => k' ≠ k := by
    rw [sound.nodup.erase_eq_filter]
    exact List.filter_congr fun k' _ => by simp [bne, beq_eq_decide]
  refine ⟨?_, fun k' => ?_, ?_, ?_⟩
  · change mail.order.erase k = (mail.pending.erase k).entries.map Prod.fst
    rw [erased, sound.keys, Dict.erase, List.filter_map]
    rfl
  · change (mail.pending.erase k).get? k' = _
    rw [Dict.get?_erase, sound.newest]
    exact lastOf_remove.symm
  · change (mail.order.erase k).Sublist ((mail.unread.filter fun e => e.1 ≠ k).map Prod.fst)
    have both : (mail.unread.filter fun e => e.1 ≠ k).map Prod.fst =
        (mail.unread.map Prod.fst).filter fun k' => k' ≠ k := by
      rw [List.filter_map]
      rfl
    rw [erased, both]
    exact sound.oldestFirst.filter _
  · have counted := sound.counted
    have length := List.length_erase_of_mem held
    have some_ := List.length_pos_of_mem held
    change mail.puts = mail.takes + (mail.removes + 1) + mail.dropped + (mail.order.erase k).length
    omega

/-- What is left has none of the keys removed. -/
theorem Sound.remove (sound : mail.Sound) (p : κ → Bool) : (mail.remove p).Sound ∧
    ∀ k m, (mail.remove p).pending.get? k = some m → mail.pending.get? k = some m ∧ p k = false := by
  have all : ∀ (keys : List κ) (mail : KeyedMail κ μ), mail.Sound → keys.Nodup → (∀ k ∈ keys, k ∈ mail.order) →
      (keys.foldl KeyedMail.removeKey mail).Sound ∧
        ∀ k m, (keys.foldl KeyedMail.removeKey mail).pending.get? k = some m →
          mail.pending.get? k = some m ∧ k ∉ keys := by
    intro keys
    induction keys with
    | nil => exact fun mail sound _ _ => ⟨sound, fun k m its => ⟨its, List.not_mem_nil⟩⟩
    | cons key keys ih =>
      intro mail sound nodup held
      obtain ⟨new, nodup⟩ := List.nodup_cons.mp nodup
      have still : ∀ k ∈ keys, k ∈ (mail.removeKey key).order := fun k member =>
        (List.mem_erase_of_ne fun same : k = key => new (same ▸ member)).mpr (held k (List.mem_cons_of_mem _ member))
      obtain ⟨left, kept⟩ := ih _ (sound.removeKey (held key (List.mem_cons_self ..))) nodup still
      refine ⟨left, fun k m its => ?_⟩
      obtain ⟨before, apart⟩ := kept k m its
      have erased : (mail.pending.erase key).get? k = some m := before
      rw [Dict.get?_erase] at erased
      split at erased
      · cases erased
      · rename_i other
        exact ⟨erased, fun member => (List.mem_cons.mp member).elim other apart⟩
  have nodup : ((mail.pending.entries.map Prod.fst).filter p).Nodup := mail.pending.nodup.filter _
  obtain ⟨left, kept⟩ := all _ mail sound nodup fun k member => by
    rw [sound.keys]
    exact (List.mem_filter.mp member).1
  refine ⟨left, fun k m its => ?_⟩
  obtain ⟨before, apart⟩ := kept k m its
  refine ⟨before, Bool.eq_false_iff.mpr fun removed => apart (List.mem_filter.mpr ⟨?_, removed⟩)⟩
  rw [← sound.keys]
  exact sound.mem_order.mpr (by rw [before]; rfl)

end KeyedMail
